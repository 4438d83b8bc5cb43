import MiniRpc.OutputStream

/-!
# Shutting a connection down

`shutdown` leaves the state `connected` once and for all and makes the loop
run `shutdownInLoop` once. If output is buffered at that moment the write
side stays open, and the write event that empties the buffer does not close
it either. If nothing is buffered it is closed at once, although messages
accepted before may still be on their way to the loop.
-/

set_option autoImplicit false

namespace MiniRpc.GracefulShutdown
open MiniRpc.ByteBuffer MiniRpc.PostedItems MiniRpc.StepMachine MiniRpc.ConnectionLoop
open MiniRpc.OutputStream

variable {τ : Type}

def early : State → Bool
  | .connecting => true
  | .connected => true
  | _ => false

def shutdownsPosted (q : PostQueue τ Functor) : ℕ :=
  q.waiting.countP fun x => x.2 = .shutdownInLoop

/-- The calls of `shutdownInLoop` that can still come. -/
def due (s : EventLoop τ) : ℕ := (if early s.conn.state then 1 else 0)+shutdownsPosted s.functors

inductive ShutEffect (s : EventLoop τ) (r : EventLoop τ × List (Output τ)) : Prop where
  | silent (hnew : ∀ o ∈ r.2, shutsDown o = false ∧ halfCloses o = false) (hdue : due r.1 ≤ due s)
      (hshut : r.1.conn.writeShut = s.conn.writeShut)
  | waits (hw : s.conn.writing = true) (hnew : r.2 = [.shutdownInLoop]) (hdue : due r.1+1 ≤ due s)
      (state : State) (hstate : state = .disconnected → s.conn.state = .disconnected)
      (hconn : r.1.conn = { s.conn with state := state })
  | shuts (hw : s.conn.writing = false) (hnew : r.2 = [.shutdownInLoop,.shutdownWrite])
      (hdue : due r.1+1 ≤ due s) (hshut : r.1.conn.writeShut = true)

theorem due_of_functors (s : EventLoop τ) (x : TcpConnection) (hx : x.state = s.conn.state)
    (q : PostQueue τ Functor) (hq : shutdownsPosted q = shutdownsPosted s.functors) :
    due { conn := x, functors := q } = due s := by
  rw [due,due,hx,hq]

theorem shutdownInLoop_effect {s : EventLoop τ} (state : State) (q : PostQueue τ Functor)
    (hstate : state = .disconnected → s.conn.state = .disconnected)
    (hdue : due { conn := { s.conn with state := state }, functors := q }+1 ≤ due s) :
    ShutEffect s
      ({ conn := (TcpConnection.shutdownInLoop (τ := τ) { s.conn with state := state }).1
         functors := q },
       TcpConnection.shutdownInLoop { s.conn with state := state } |>.2) := by
  rw [TcpConnection.shutdownInLoop]
  by_cases h : s.conn.writing = true
  · rw [if_pos h]
    exact .waits h rfl hdue state hstate rfl
  · rw [if_neg h]
    exact .shuts (Bool.not_eq_true _ ▸ h) rfl hdue rfl

theorem unshut_effect {s : EventLoop τ} {x : TcpConnection} {new : List (Output τ)}
    (h : Unshut s.conn (x,new)) (q : PostQueue τ Functor)
    (hq : shutdownsPosted q = shutdownsPosted s.functors) (before : List (Output τ))
    (hbefore : ∀ o ∈ before, shutsDown o = false ∧ halfCloses o = false) :
    ShutEffect s ({ conn := x, functors := q },before++new) := by
  apply ShutEffect.silent
  · intro o ho
    rcases List.mem_append.mp ho with ho | ho
    · exact hbefore o ho
    · exact h.silent o ho
  · exact (due_of_functors s x h.state q hq).le
  · exact h.writeShut

theorem shutdownsPosted_start (q : PostQueue τ Functor) (t : τ) (f : Functor) :
    shutdownsPosted (q.start t f) = shutdownsPosted q+(if f = .shutdownInLoop then 1 else 0) := by
  simp [shutdownsPosted,start_waiting,List.countP_append,List.countP_singleton]

theorem shutdownsPosted_take {q : PostQueue τ Functor} {t : τ} {f : Functor}
    {fs : List (τ × Functor)} (hb : q.batch = some ((t,f)::fs)) :
    shutdownsPosted q =
      shutdownsPosted { q with batch := some fs }+(if f = .shutdownInLoop then 1 else 0) := by
  simp [shutdownsPosted,take_waiting q _ _ hb,List.countP_cons]

structure Once (s : EventLoop τ) (os : List (Output τ)) : Prop where
  single : due s+os.countP shutsDown ≤ 1
  issued : s.conn.writeShut = os.any halfCloses
  caused : os.any halfCloses = true → 0 < os.countP shutsDown

theorem once_start : Once ({} : EventLoop τ) [] :=
  ⟨by simp [due,early,shutdownsPosted,PostQueue.waiting],rfl,by simp⟩

theorem silent_open {os : List (Output τ)}
    (h : ∀ o ∈ os, shutsDown o = false ∧ halfCloses o = false) : os.any halfCloses = false :=
  List.any_eq_false.mpr fun o ho => Bool.eq_false_iff.mp (h o ho).2

theorem once_step {s : EventLoop τ} {os : List (Output τ)} (h : Once s os)
    {r : EventLoop τ × List (Output τ)} (hr : ShutEffect s r) : Once r.1 (os++r.2) := by
  have hs := h.single
  cases hr with
  | silent hnew hdue hshut =>
    have hzero : r.2.countP shutsDown = 0 :=
      List.countP_eq_zero.mpr fun o ho => by simp [(hnew o ho).1]
    have hnone := silent_open hnew
    refine ⟨?_,?_,?_⟩
    · rw [List.countP_append,hzero]
      omega
    · rw [List.any_append,hnone,Bool.or_false,hshut]
      exact h.issued
    · rw [List.any_append,hnone,Bool.or_false,List.countP_append,hzero]
      exact h.caused
  | waits hw hnew hdue state hstate hconn =>
    rw [hnew]
    refine ⟨?_,?_,?_⟩
    · rw [List.countP_append,List.countP_singleton]
      simp only [shutsDown,if_true]
      omega
    · simp [halfCloses,hconn,h.issued]
    · simp [shutsDown,List.countP_append]
  | shuts hw hnew hdue hshut =>
    rw [hnew]
    refine ⟨?_,?_,?_⟩
    · rw [List.countP_append,List.countP_cons,List.countP_singleton]
      simp only [shutsDown,if_true,Bool.false_eq_true,if_false]
      omega
    · simp [halfCloses,hshut]
    · simp [shutsDown,List.countP_append]

theorem once_late {s : EventLoop τ} {os : List (Output τ)} (h : Once s os)
    (hran : os.any shutsDown = true) : due s = 0 := by
  have hpos : 0 < os.countP shutsDown := by
    obtain ⟨o,ho,hshut⟩ := List.any_eq_true.mp hran
    exact List.countP_pos_iff.mpr ⟨o,ho,hshut⟩
  have := h.single
  omega

theorem once_unshut {s : EventLoop τ} {os : List (Output τ)} (h : Once s os) (hdue : 0 < due s) :
    s.conn.writeShut = false := by
  rw [h.issued,← Bool.not_eq_true]
  intro hshut
  have := h.caused hshut
  have := h.single
  omega

theorem not_early_of_due {s : EventLoop τ} (h : due s = 0) : early s.conn.state = false := by
  cases he : early s.conn.state with
  | false => rfl
  | true => simp [due,he] at h

variable [DecidableEq τ]

theorem shutdownsPosted_post (q : PostQueue τ Functor) (t : τ) :
    shutdownsPosted (q.post t) = shutdownsPosted q :=
  (post_waiting_perm q t).countP_eq _

theorem move_shutEffect {s : EventLoop τ} {i : Input τ} {r : EventLoop τ × List (Output τ)}
    (hm : Move s i r) : ShutEffect s r := by
  cases hm with
  | stays => exact .silent (by simp) le_rfl rfl
  | establishes hs => exact .silent (by simp) (by simp [due,EventLoop.setState,early,hs]) rfl
  | closes _ hi =>
    exact .silent (by simp) (by simp [due,TcpConnection.handleClose,early]) rfl
  | writes w hb =>
    exact unshut_effect (handleWrite_unshut s.conn w) s.functors rfl [] (by simp)
  | sends message w hs =>
    exact unshut_effect (sendInLoop_unshut s.conn none message w) s.functors rfl
      [.accepted none message] (by simp [shutsDown,halfCloses])
  | shuts hs =>
    apply shutdownInLoop_effect .disconnecting s.functors State.noConfusion
    simp [due,early,hs,Nat.add_comm]
  | accepts t message hs =>
    refine .silent (by simp [shutsDown,halfCloses]) ?_ rfl
    simp [due,shutdownsPosted_start]
  | shutsLater t hs =>
    refine .silent (by simp) ?_ rfl
    simp [due,shutdownsPosted_start,EventLoop.setState,early,hs,Nat.add_comm]
  | posts t => exact .silent (by simp) (by simp [due,shutdownsPosted_post]) rfl
  | swaps hb => exact .silent (by simp) (by simp [due,shutdownsPosted,swap_waiting _ hb]) rfl
  | polls w hb =>
    refine .silent (by simp) ?_ rfl
    rw [due,due,EventLoop.setBatch,shutdownsPosted,done_waiting _ hb]
    rfl
  | runsSend w t message fs hb =>
    refine unshut_effect (sendInLoop_unshut s.conn (some t) message w) _ ?_ [] (by simp)
    simp [EventLoop.setBatch,shutdownsPosted_take hb]
  | runsShutdown w t fs hb =>
    apply shutdownInLoop_effect s.conn.state _ id
    simp [due,EventLoop.setBatch,shutdownsPosted_take hb,Nat.add_assoc]

structure Held (s : EventLoop τ) (os : List (Output τ)) : Prop where
  closed : s.conn.state = .disconnected → s.conn.writing = false
  intact : s.conn.state ≠ .disconnected → Integrity s os
  once : Once s os

theorem held_start : Held ({} : EventLoop τ) [] := ⟨fun _ => rfl,fun _ => integrity_start,once_start⟩

theorem held_step (s : EventLoop τ) (os : List (Output τ)) (i : Input τ) (h : Held s os) :
    Held (eventLoop.step s i).1 (os++(eventLoop.step s i).2) :=
  ⟨move_closed (step_move s i) h.closed,integrity_step s os i h.intact,
    once_step h.once (move_shutEffect (step_move s i))⟩

theorem run_held (is : List (Input τ)) :
    Held (eventLoop.run ({} : EventLoop τ) is).1 (eventLoop.run {} is).2 :=
  run_invariant eventLoop Held held_step {} is held_start

/-- A shut down connection that has written everything has closed its write
side. -/
def HalfClosed (s : EventLoop τ) (os : List (Output τ)) : Prop :=
  s.conn.state = .disconnecting → os.any shutsDown = true → s.conn.outputBuffer.readable = [] →
    s.conn.writeShut = true

/-- `shutdownInLoop` runs when no output is buffered, or too late. -/
def ShutsIdle (s : EventLoop τ) (i : Input τ) : Prop :=
  (eventLoop.step s i).2.any shutsDown = true →
    s.conn.state = .disconnected ∨ s.conn.outputBuffer.readable = []

instance (s : EventLoop τ) (os : List (Output τ)) : Decidable (HalfClosed s os) :=
  inferInstanceAs (Decidable (_ → _ → _ → _))

instance (s : EventLoop τ) (i : Input τ) : Decidable (ShutsIdle s i) :=
  inferInstanceAs (Decidable (_ → _ ∨ _))

theorem shutsIdle_not_writing {s : EventLoop τ} {os : List (Output τ)} (h : Held s os)
    (hidle : s.conn.state = .disconnected ∨ s.conn.outputBuffer.readable = []) :
    s.conn.writing = false := by
  by_cases hs : s.conn.state = .disconnected
  · exact h.closed hs
  · have hempty := hidle.resolve_left hs
    cases hw : s.conn.writing with
    | false => rfl
    | true => exact absurd hempty ((h.intact hs).interest.mp hw)

theorem shutsIdle_step {s : EventLoop τ} {os : List (Output τ)} {i : Input τ} (h : Held s os)
    (hshut : os.any shutsDown = true → s.conn.writeShut = true) (hc : ShutsIdle s i)
    (hany : (os++(eventLoop.step s i).2).any shutsDown = true) :
    (eventLoop.step s i).1.conn.writeShut = true := by
  have hold : (eventLoop.step s i).2.any shutsDown = false → os.any shutsDown = true := by
    intro hno
    rwa [List.any_append,hno,Bool.or_false] at hany
  cases move_shutEffect (step_move s i) with
  | silent hnew hdue hsame =>
    rw [hsame]
    exact hshut (hold (List.any_eq_false.mpr fun o ho => by simp [(hnew o ho).1]))
  | waits hw hnew hdue state hstate hconn =>
    have hidle := shutsIdle_not_writing h (hc (by rw [hnew]; rfl))
    exact absurd (hw.symm.trans hidle) Bool.noConfusion
  | shuts hw hnew hdue hdone => exact hdone

/-- Output is buffered, `shutdownInLoop` has run, and the write side is
open. -/
structure Stuck (s : EventLoop τ) : Prop where
  state : s.conn.state = .disconnecting
  writing : s.conn.writing = true
  buffered : s.conn.outputBuffer.readable ≠ []
  unshut : s.conn.writeShut = false

theorem stuck_runFunctor {s : EventLoop τ} (h : Stuck s) {x : τ × Functor}
    {fs : List (τ × Functor)} (hb : s.functors.batch = some (x::fs)) :
    Stuck (eventLoop.step s (.runFunctor .again)).1 ∧
    (eventLoop.step s (.runFunctor .again)).1.functors.batch = some fs := by
  obtain ⟨t,f⟩ := x
  show Stuck (runFunctor s .again).1 ∧ (runFunctor s .again).1.functors.batch = some fs
  rw [runFunctor.eq_def,hb]
  cases f with
  | sendInLoop message =>
    have hu := sendInLoop_unshut (τ := τ) s.conn (some t) message .again
    have hx : (s.conn.sendInLoop (some t) message .again).1 = s.conn.keep message := by
      simp [TcpConnection.sendInLoop,h.state,h.writing]
    refine ⟨⟨hu.state.trans h.state,?_,?_,hu.writeShut.trans h.unshut⟩,rfl⟩
    · show (s.conn.sendInLoop (some t) message .again).1.writing = true
      rw [hx,TcpConnection.keep]
      by_cases hm : message = []
      · rw [if_pos hm]
        exact h.writing
      · rw [if_neg hm]
    · show (s.conn.sendInLoop (some t) message .again).1.outputBuffer.readable ≠ []
      rw [hx,keep_readable]
      exact List.append_ne_nil_of_left_ne_nil h.buffered _
  | shutdownInLoop =>
    have hx : (s.conn.shutdownInLoop (τ := τ)).1 = s.conn := by
      rw [TcpConnection.shutdownInLoop,if_pos h.writing]
    refine ⟨?_,rfl⟩
    show Stuck { conn := (s.conn.shutdownInLoop (τ := τ)).1, functors := _ }
    rw [hx]
    exact ⟨h.state,h.writing,h.buffered,h.unshut⟩

theorem stuck_polls (s : EventLoop τ) (h : Stuck s) :
    ∃ js, Stuck (eventLoop.run s js).1 ∧ (eventLoop.run s js).1.functors.batch = none := by
  cases hb : s.functors.batch with
  | none => exact ⟨[],h,hb⟩
  | some fs =>
    induction fs generalizing s with
    | nil =>
      have hstep : eventLoop.step s (.runFunctor .again) = (s.setBatch none,[]) := by
        show runFunctor s .again = _
        rw [runFunctor.eq_def,hb]
      refine ⟨[.runFunctor .again],?_⟩
      rw [Machine.run,hstep]
      exact ⟨⟨h.state,h.writing,h.buffered,h.unshut⟩,rfl⟩
    | cons x fs ih =>
      obtain ⟨hs,hb'⟩ := stuck_runFunctor h hb
      obtain ⟨js,hjs⟩ := ih _ hs hb'
      exact ⟨.runFunctor .again::js,hjs⟩

theorem stuck_writes {s : EventLoop τ} (h : Stuck s) (hb : s.functors.batch = none) :
    ∃ w, (eventLoop.step s (.handleWrite w)).1.conn =
      { s.conn with
        outputBuffer := s.conn.outputBuffer.retrieve s.conn.outputBuffer.readable.length
        writing := false } := by
  refine ⟨.wrote s.conn.outputBuffer.readable.length,?_⟩
  have hlen : s.conn.outputBuffer.readable.length ≠ 0 := by
    simpa using h.buffered
  have hall : (s.conn.outputBuffer.retrieve s.conn.outputBuffer.readable.length).readableBytes = 0 := by
    rw [← readable_length,readable_retrieve,List.drop_length,List.length_nil]
  have hwrite : s.conn.write s.conn.outputBuffer.readable
      (.wrote s.conn.outputBuffer.readable.length) = some s.conn.outputBuffer.readable.length := by
    simp [TcpConnection.write,h.unshut]
  simp only [eventLoop,hb,Option.isNone_none,if_true,TcpConnection.handleWrite,h.writing,hwrite,hlen,
    hall,Bool.true_eq_false,if_false]

theorem stuck_drains (s : EventLoop τ) (h : Stuck s) :
    ∃ js, (eventLoop.run s js).1.conn.state = .disconnecting ∧
      (eventLoop.run s js).1.conn.outputBuffer.readable = [] ∧
      (eventLoop.run s js).1.conn.writeShut = false := by
  obtain ⟨js,hs,hb⟩ := stuck_polls s h
  obtain ⟨w,hw⟩ := stuck_writes hs hb
  refine ⟨js++[.handleWrite w],?_⟩
  have hrun : (eventLoop.run s (js++[.handleWrite w])).1 =
      (eventLoop.step (eventLoop.run s js).1 (.handleWrite w)).1 := by
    rw [run_append]
    rfl
  rw [hrun,hw]
  exact ⟨hs.state,by rw [readable_retrieve,List.drop_length],hs.unshut⟩

theorem stuck_of_not_shutsIdle {s : EventLoop τ} {os : List (Output τ)} {i : Input τ}
    (h : Held s os) (hc : ¬ ShutsIdle s i) :
    Stuck (eventLoop.step s i).1 ∧ (eventLoop.step s i).2.any shutsDown = true := by
  obtain ⟨hany,hno⟩ := Classical.not_imp.mp hc
  obtain ⟨hs,hbuf⟩ := not_or.mp hno
  have hwriting := (h.intact hs).interest.mpr hbuf
  have honce := (held_step s os i h).once
  cases move_shutEffect (step_move s i) with
  | silent hnew hdue hsame =>
    obtain ⟨o,ho,hshut⟩ := List.any_eq_true.mp hany
    exact absurd ((hnew o ho).1.symm.trans hshut) Bool.noConfusion
  | waits hw hnew hdue state hstate hconn =>
    refine ⟨⟨?_,?_,?_,?_⟩,hany⟩
    · have hlate := not_early_of_due (once_late honce (by rw [List.any_append,hany,Bool.or_true]))
      rw [hconn] at hlate ⊢
      cases state with
      | connecting => exact Bool.noConfusion hlate
      | connected => exact Bool.noConfusion hlate
      | disconnecting => rfl
      | disconnected => exact absurd (hstate rfl) hs
    · rw [hconn]
      exact hw
    · rw [hconn]
      exact hbuf
    · rw [hconn]
      exact once_unshut h.once (by omega)
  | shuts hw hnew hdue hdone => exact absurd (hwriting.symm.trans hw) Bool.noConfusion

/-- A shut down connection whose output is written has closed its write side
throughout a run, if every `shutdownInLoop` of the run finds no buffered
output; a run in which one does can go on until this fails. -/
theorem half_close_completes :
    (∀ is : List (Input τ), Along eventLoop ShutsIdle {} is → Always eventLoop HalfClosed {} [] is) ∧
    (∀ (is : List (Input τ)) (i : Input τ), ¬ ShutsIdle (eventLoop.run {} is).1 i →
      ∃ js, ¬ Always eventLoop HalfClosed {} [] (is++i::js)) := by
  constructor
  · intro is hc
    apply always_of_along eventLoop ShutsIdle
      (fun s os => Held s os ∧ (os.any shutsDown = true → s.conn.writeShut = true)) HalfClosed
      (fun s os h _ hany _ => h.2 hany)
      (fun s os i h hi => ⟨held_step s os i h.1,shutsIdle_step h.1 h.2 hi⟩) {} [] is _ hc
    exact ⟨held_start,by simp⟩
  · intro is i hc
    obtain ⟨hs,hany⟩ := stuck_of_not_shutsIdle (run_held is) hc
    obtain ⟨js,hstate,hempty,hopen⟩ := stuck_drains _ hs
    refine ⟨js,fun h => ?_⟩
    have hlast := always_last eventLoop HalfClosed h
    rw [run_append,Machine.run] at hlast
    have hshut := hlast hstate (by simp [hany]) hempty
    exact Bool.noConfusion (hopen.symm.trans hshut)

def pendingShutdown : List (Input ℕ) :=
  [.connectEstablished,.send [1,2,3] (.wrote 1),.shutdown]

def idleShutdown : List (Input ℕ) :=
  [.connectEstablished,.send [1,2,3] (.wrote 1),.handleWrite (.wrote 2),.shutdown]

theorem half_close_completes_idle :
    Always eventLoop HalfClosed {} [] idleShutdown ∧
    (∃ js, ¬ Always eventLoop HalfClosed {} [] (pendingShutdown++js)) :=
  ⟨half_close_completes.1 idleShutdown (by decide +kernel),
    half_close_completes.2 [.connectEstablished,.send [1,2,3] (.wrote 1)] .shutdown
      (by decide +kernel)⟩

/-- The last two bytes go out and the write side stays open. -/
theorem drained_not_half_closed :
    ¬ HalfClosed (eventLoop.run {} (pendingShutdown++[.handleWrite (.wrote 2)])).1
      (eventLoop.run {} (pendingShutdown++[.handleWrite (.wrote 2)])).2 := by
  decide +kernel

theorem move_stays_open {s : EventLoop τ} {i : Input τ} {r : EventLoop τ × List (Output τ)}
    (hm : Move s i r) (hi : closing i = false) (hs : s.conn.state ≠ .disconnected) :
    r.1.conn.state ≠ .disconnected := by
  intro hr
  cases hm with
  | stays => exact hs hr
  | establishes hc => exact State.noConfusion hr
  | closes _ hclosing => exact Bool.noConfusion (hi.symm.trans hclosing)
  | writes w hb => exact hs ((handleWrite_unshut s.conn w).state.symm.trans hr)
  | sends message w hc => exact hs ((sendInLoop_unshut s.conn none message w).state.symm.trans hr)
  | shuts hc =>
    exact State.noConfusion ((shutdownInLoop_quiet (τ := τ)
      { s.conn with state := .disconnecting }).2.2.1.symm.trans hr)
  | accepts t message hc => exact hs hr
  | shutsLater t hc => exact State.noConfusion hr
  | posts t => exact hs hr
  | swaps hb => exact hs hr
  | polls w hb => exact hs hr
  | runsSend w t message fs hb =>
    exact hs ((sendInLoop_unshut s.conn (some t) message w).state.symm.trans hr)
  | runsShutdown w t fs hb => exact hs ((shutdownInLoop_quiet (τ := τ) s.conn).2.2.1.symm.trans hr)

theorem move_after_shut {s : EventLoop τ} {i : Input τ} {r : EventLoop τ × List (Output τ)}
    (hm : Move s i r) (hs : s.conn.state ≠ .disconnected) (hint : Interest s.conn)
    (hlate : early s.conn.state = false) (hshut : s.conn.writeShut = true) :
    writtenOf r.2 = [] ∧ acceptedOf r.2 = [] := by
  have hconn : s.conn.state ≠ .connected := by
    intro hc
    rw [hc] at hlate
    exact Bool.noConfusion hlate
  cases hm with
  | stays => exact ⟨rfl,rfl⟩
  | establishes hc => exact ⟨rfl,rfl⟩
  | closes _ hi => exact ⟨rfl,rfl⟩
  | writes w hb =>
    obtain ⟨hf,-,ha⟩ := handleWrite_flushes (τ := τ) hint w
    exact ⟨hf.shut hshut,ha⟩
  | sends message w hc => exact absurd hc hconn
  | shuts hc => exact absurd hc hconn
  | accepts t message hc => exact absurd hc hconn
  | shutsLater t hc => exact absurd hc hconn
  | posts t => exact ⟨rfl,rfl⟩
  | swaps hb => exact ⟨rfl,rfl⟩
  | polls w hb => exact ⟨rfl,rfl⟩
  | runsSend w t message fs hb =>
    obtain ⟨hf,-,ha⟩ := sendInLoop_flushes hs hint (some t) message w
    exact ⟨hf.shut hshut,ha⟩
  | runsShutdown w t fs hb =>
    obtain ⟨-,-,-,hw,-,ha⟩ := shutdownInLoop_quiet (τ := τ) s.conn
    exact ⟨hw,ha⟩

def beforeShut (os : List (Output τ)) : List (Output τ) := os.takeWhile fun o => !halfCloses o

def afterShut (os : List (Output τ)) : List (Output τ) := os.dropWhile fun o => !halfCloses o

omit [DecidableEq τ] in
theorem beforeShut_append {os : List (Output τ)} (h : os.any halfCloses = true)
    (new : List (Output τ)) :
    beforeShut (os++new) = beforeShut os ∧ afterShut (os++new) = afterShut os++new := by
  induction os with
  | nil => exact Bool.noConfusion h
  | cons o os ih =>
    cases ho : halfCloses o with
    | true => simp [beforeShut,afterShut,ho]
    | false =>
      have hos : os.any halfCloses = true := by simpa [ho] using h
      simpa [beforeShut,afterShut,ho] using ih hos

omit [DecidableEq τ] in
theorem beforeShut_first {os : List (Output τ)} (h : os.any halfCloses = false) :
    beforeShut (os++[.shutdownInLoop,.shutdownWrite]) = os++[.shutdownInLoop] ∧
    afterShut (os++[.shutdownInLoop,.shutdownWrite]) = [.shutdownWrite] := by
  induction os with
  | nil => exact ⟨rfl,rfl⟩
  | cons o os ih =>
    obtain ⟨ho,hos⟩ : halfCloses o = false ∧ os.any halfCloses = false := by simpa using h
    simpa [beforeShut,afterShut,ho] using ih (by simpa using hos)

/-- Once `SHUT_WR` was issued: all that was accepted had been written before,
whole and in each sender's order, and nothing was written after it. -/
def WrittenBeforeShut (os : List (Output τ)) : Prop :=
  os.any halfCloses = true →
    writtenOf (beforeShut os) = (ranOf (beforeShut os)).flatMap Prod.snd ∧
    (∀ sender, itemsOf sender (ranOf (beforeShut os)) = itemsOf sender (acceptedOf os)) ∧
    writtenOf (afterShut os) = []

/-- The step runs `shutdownInLoop`: `shutdown` is called in the loop thread,
or the next functor is one that `shutdown` has posted. -/
def runsShutdownInLoop (s : EventLoop τ) : Input τ → Bool
  | .shutdown => s.conn.state = .connected
  | .runFunctor _ =>
    match s.functors.batch with
    | some ((_,.shutdownInLoop)::_) => true
    | _ => false
  | _ => false

/-- Where `shutdownInLoop` runs and finds no output buffered, no message that
`send` has accepted is on its way to the loop. -/
def ShutsUnposted (s : EventLoop τ) (i : Input τ) : Prop :=
  runsShutdownInLoop s i = true → s.conn.writing = false → postedOf s.functors = []

instance (s : EventLoop τ) (i : Input τ) : Decidable (ShutsUnposted s i) :=
  inferInstanceAs (Decidable (_ → _ → _))

theorem runsShutdownInLoop_step {s : EventLoop τ} {i : Input τ}
    (h : runsShutdownInLoop s i = true) :
    ∃ state, (eventLoop.step s i).2 = (TcpConnection.shutdownInLoop { s.conn with state := state }).2 := by
  cases i with
  | shutdown =>
    have hs : s.conn.state = .connected := of_decide_eq_true h
    refine ⟨.disconnecting,?_⟩
    simp only [eventLoop,if_pos hs]
    rfl
  | runFunctor w =>
    refine ⟨s.conn.state,?_⟩
    show (runFunctor s w).2 = _
    rw [runsShutdownInLoop] at h
    split at h
    · rw [runFunctor.eq_def,‹s.functors.batch = _›]
      rfl
    · exact Bool.noConfusion h
  | _ => exact Bool.noConfusion h

theorem move_halfCloses {s : EventLoop τ} {i : Input τ} {r : EventLoop τ × List (Output τ)}
    (hm : Move s i r) (h : r.2.any halfCloses = true) : runsShutdownInLoop s i = true := by
  cases hm with
  | writes w hb =>
    exact Bool.noConfusion (h.symm.trans (silent_open (handleWrite_unshut s.conn w).silent))
  | sends message w hs =>
    have hquiet : (s.runSend none message w).2.any halfCloses = false :=
      silent_open (sendInLoop_unshut s.conn none message w).silent
    exact Bool.noConfusion (h.symm.trans hquiet)
  | shuts hs => exact decide_eq_true hs
  | runsSend w t message fs hb =>
    have hquiet := silent_open (sendInLoop_unshut s.conn (some t) message w).silent
    exact Bool.noConfusion (h.symm.trans hquiet)
  | runsShutdown w t fs hb => rw [runsShutdownInLoop,hb]
  | _ => exact Bool.noConfusion h

theorem halfCloses_iff (s : EventLoop τ) (i : Input τ) :
    (eventLoop.step s i).2.any halfCloses = true ↔
      runsShutdownInLoop s i = true ∧ s.conn.writing = false := by
  have hshut : ∀ state, (TcpConnection.shutdownInLoop (τ := τ)
      { s.conn with state := state }).2.any halfCloses = !s.conn.writing := by
    intro state
    rw [TcpConnection.shutdownInLoop]
    cases hw : s.conn.writing <;> rfl
  constructor
  · intro h
    have hruns := move_halfCloses (step_move s i) h
    obtain ⟨state,hstep⟩ := runsShutdownInLoop_step hruns
    rw [hstep,hshut,Bool.not_eq_true'] at h
    exact ⟨hruns,h⟩
  · rintro ⟨hruns,hw⟩
    obtain ⟨state,hstep⟩ := runsShutdownInLoop_step hruns
    rw [hstep,hshut,hw]
    rfl

theorem shutsUnposted_iff (s : EventLoop τ) (i : Input τ) :
    ShutsUnposted s i ↔
      ((eventLoop.step s i).2.any halfCloses = true → postedOf s.functors = []) := by
  rw [halfCloses_iff,and_imp,ShutsUnposted]

theorem postedOf_eq_nil {q : PostQueue τ Functor}
    (h : ∀ sender, itemsOf sender (postedOf q) = []) : postedOf q = [] := by
  cases hp : postedOf q with
  | nil => rfl
  | cons x xs =>
    have := h x.1
    simp [hp,itemsOf] at this

theorem writtenBeforeShut_shuts {s : EventLoop τ} {os : List (Output τ)} (h : Integrity s os)
    (hw : s.conn.writing = false) (hno : os.any halfCloses = false) :
    WrittenBeforeShut (os++[.shutdownInLoop,.shutdownWrite]) ↔ postedOf s.functors = [] := by
  obtain ⟨hbefore,hafter⟩ := beforeShut_first hno
  have hempty : s.conn.outputBuffer.readable = [] := by
    by_contra hne
    exact Bool.noConfusion (hw.symm.trans (h.interest.mpr hne))
  have hran : ranOf (os++[.shutdownInLoop]) = ranOf os := by simp [ranOf]
  have hwritten : writtenOf (os++[.shutdownInLoop]) = writtenOf os := by simp [writtenOf]
  have hacc : acceptedOf (os++[.shutdownInLoop,.shutdownWrite]) = acceptedOf os := by
    simp [acceptedOf]
  rw [WrittenBeforeShut,hbefore,hafter,hran,hwritten,hacc]
  constructor
  · intro hq
    obtain ⟨-,horder,-⟩ := hq (by simp [halfCloses])
    apply postedOf_eq_nil
    intro sender
    have ho := h.order sender
    rw [← horder sender] at ho
    exact List.append_right_eq_self.mp ho
  · intro hposted _
    refine ⟨?_,?_,rfl⟩
    · have hs := h.stream
      rwa [hempty,List.append_nil] at hs
    · intro sender
      have ho := h.order sender
      rwa [hposted,show itemsOf sender [] = [] from rfl,List.append_nil] at ho

theorem writtenBeforeShut_step {s : EventLoop τ} {os : List (Output τ)} {i : Input τ}
    (h : Held s os) (hs : s.conn.state ≠ .disconnected) (hq : WrittenBeforeShut os) :
    WrittenBeforeShut (os++(eventLoop.step s i).2) ↔ ShutsUnposted s i := by
  rw [shutsUnposted_iff]
  have hint := h.intact hs
  cases hshut : os.any halfCloses with
  | true =>
    have hlate : due s = 0 := by
      have := h.once.caused hshut
      have := h.once.single
      omega
    have hw : s.conn.writeShut = true := h.once.issued.trans hshut
    obtain ⟨hwritten,hacc⟩ :=
      move_after_shut (step_move s i) hs hint.interest (not_early_of_due hlate) hw
    obtain ⟨hbefore,hafter⟩ := beforeShut_append hshut (eventLoop.step s i).2
    have hnone : (eventLoop.step s i).2.any halfCloses = false := by
      cases move_shutEffect (step_move s i) with
      | silent hnew hdue hsame => exact silent_open hnew
      | waits hw hnew hdue state hstate hconn => rw [hnew]; rfl
      | shuts hw hnew hdue hdone => omega
    obtain ⟨hstream,horder,hafterNil⟩ := hq hshut
    refine ⟨fun _ hany => ?_,fun _ _ => ?_⟩
    · exact Bool.noConfusion (hnone.symm.trans hany)
    · rw [hbefore,hafter,acceptedOf_append,hacc,List.append_nil,writtenOf_append,hafterNil,hwritten]
      exact ⟨hstream,horder,rfl⟩
  | false =>
    cases move_shutEffect (step_move s i) with
    | silent hnew hdue hsame =>
      have hnone := silent_open hnew
      refine ⟨fun _ hany => ?_,fun _ hany => ?_⟩
      · exact Bool.noConfusion (hnone.symm.trans hany)
      · simp [hshut,hnone] at hany
    | waits hw hnew hdue state hstate hconn =>
      refine ⟨fun _ hany => ?_,fun _ hany => ?_⟩
      · rw [hnew] at hany
        exact Bool.noConfusion hany
      · simp [hshut,hnew,halfCloses] at hany
    | shuts hw hnew hdue hdone =>
      rw [hnew,writtenBeforeShut_shuts hint hw hshut]
      exact ⟨fun h _ => h,fun h => h rfl⟩

/-- While neither side closes the connection, every message accepted before
`shutdown` is written before `SHUT_WR`, and none after it, throughout a run
exactly if `shutdownInLoop` never finds the connection idle while an accepted
message is still on its way to the loop. -/
theorem shutdown_loses_nothing_iff (is : List (Input τ)) (hopen : ∀ i ∈ is, closing i = false) :
    Always eventLoop (fun _ os => WrittenBeforeShut os) {} [] is ↔
      Along eventLoop ShutsUnposted {} is := by
  apply always_iff_along_of eventLoop (fun _ i => closing i = false) ShutsUnposted
    (fun s os => Held s os ∧ s.conn.state ≠ .disconnected) (fun _ os => WrittenBeforeShut os)
  · intro s os i hi h
    exact ⟨held_step s os i h.1,move_stays_open (step_move s i) hi h.2⟩
  · intro s os i _ h hq
    exact writtenBeforeShut_step h.1 h.2 hq
  · exact along_of_forall eventLoop (fun i => closing i = false) _ is hopen
  · exact ⟨held_start,State.noConfusion⟩
  · intro h
    exact Bool.noConfusion h

def raceRun : List (Input ℕ) :=
  [.connectEstablished,.threadSend 1 [7,8],.queueInLoop 1,.shutdown,.doPendingFunctors,
   .runFunctor (.wrote 2)]

def orderlyRun : List (Input ℕ) :=
  [.connectEstablished,.threadSend 1 [7,8],.queueInLoop 1,.doPendingFunctors,.runFunctor (.wrote 2),
   .runFunctor .again,.shutdown]

theorem shutdown_loses_nothing_orderly :
    Always eventLoop (fun _ os => WrittenBeforeShut os) {} [] orderlyRun ∧
    writtenOf (eventLoop.run {} orderlyRun).2 = [7,8] :=
  ⟨(shutdown_loses_nothing_iff orderlyRun (by decide)).mpr (by decide +kernel),by decide +kernel⟩

/-- `SHUT_WR` overtakes the response, whose `::write` then fails. -/
theorem shutdown_overtakes_response :
    ¬ WrittenBeforeShut (eventLoop.run {} raceRun).2 ∧
    acceptedOf (eventLoop.run {} raceRun).2 = [(some 1,[7,8])] ∧
    writtenOf (eventLoop.run {} raceRun).2 = [] ∧ raceRun.all (fun i => !closing i) = true := by
  refine ⟨?_,by decide +kernel,by decide +kernel,by decide⟩
  intro h
  obtain ⟨-,horder,-⟩ := h (by decide +kernel)
  exact absurd (horder (some 1)) (by decide +kernel)

end MiniRpc.GracefulShutdown
