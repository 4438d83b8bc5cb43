import MiniRpc.ConnectionLoop

/-!
# What a connection writes

Three places hold the messages on their way out: the posted functors, the
output buffer, and the socket. Every step of the loop moves bytes from one
to the next without losing, repeating or reordering any, whatever `::write`
returns, as long as the connection has not been closed.
-/

set_option autoImplicit false

namespace MiniRpc.OutputStream
open MiniRpc.ByteBuffer MiniRpc.PostedItems MiniRpc.StepMachine MiniRpc.ConnectionLoop

variable {τ : Type}

def writtenOf (os : List (Output τ)) : Bytes :=
  os.flatMap fun
    | .wrote bytes => bytes
    | _ => []

def ranOf (os : List (Output τ)) : List (Option τ × Bytes) :=
  os.filterMap fun
    | .sendInLoop sender message => some (sender,message)
    | _ => none

/-- The messages whose `send` found the connection in state `connected`. -/
def acceptedOf (os : List (Output τ)) : List (Option τ × Bytes) :=
  os.filterMap fun
    | .accepted sender message => some (sender,message)
    | _ => none

def Functor.message? : Functor → Option Bytes
  | .sendInLoop message => some message
  | .shutdownInLoop => none

def postedOf (q : PostQueue τ Functor) : List (Option τ × Bytes) :=
  q.waiting.filterMap fun x => (Functor.message? x.2).map (some x.1,·)

@[simp] theorem writtenOf_append (os os' : List (Output τ)) :
    writtenOf (os++os') = writtenOf os++writtenOf os' := List.flatMap_append

@[simp] theorem ranOf_append (os os' : List (Output τ)) :
    ranOf (os++os') = ranOf os++ranOf os' := List.filterMap_append

@[simp] theorem acceptedOf_append (os os' : List (Output τ)) :
    acceptedOf (os++os') = acceptedOf os++acceptedOf os' := List.filterMap_append

def shutsDown : Output τ → Bool
  | .shutdownInLoop => true
  | _ => false

def halfCloses : Output τ → Bool
  | .shutdownWrite => true
  | _ => false

structure Unshut (x : TcpConnection) (r : TcpConnection × List (Output τ)) : Prop where
  state : r.1.state = x.state
  writeShut : r.1.writeShut = x.writeShut
  silent : ∀ o ∈ r.2, shutsDown o = false ∧ halfCloses o = false

theorem keep_unshut (x : TcpConnection) (rest : Bytes) {os : List (Output τ)}
    (ho : ∀ o ∈ os, shutsDown o = false ∧ halfCloses o = false) : Unshut x (x.keep rest,os) := by
  rw [TcpConnection.keep]
  by_cases h : rest = []
  · rw [if_pos h]
    exact ⟨rfl,rfl,ho⟩
  · rw [if_neg h]
    exact ⟨rfl,rfl,ho⟩

theorem sendInLoop_unshut (x : TcpConnection) (sender : Option τ) (message : Bytes)
    (w : WriteResult) : Unshut x (x.sendInLoop sender message w) := by
  rw [TcpConnection.sendInLoop]
  by_cases hs : x.state = .disconnected
  · rw [if_pos hs]
    exact ⟨rfl,rfl,by simp [shutsDown,halfCloses]⟩
  · rw [if_neg hs]
    by_cases hfast : x.writing = false ∧ x.outputBuffer.readableBytes = 0
    · rw [if_pos hfast]
      cases x.write message w with
      | none => exact keep_unshut x _ (by simp [shutsDown,halfCloses])
      | some n =>
        dsimp only
        by_cases hall : message.length-n = 0
        · rw [if_pos hall]
          exact ⟨rfl,rfl,by simp [shutsDown,halfCloses]⟩
        · rw [if_neg hall]
          exact keep_unshut x _ (by simp [shutsDown,halfCloses])
    · rw [if_neg hfast]
      exact keep_unshut x _ (by simp [shutsDown,halfCloses])

theorem handleWrite_unshut (x : TcpConnection) (w : WriteResult) :
    Unshut x (x.handleWrite (τ := τ) w) := by
  rw [TcpConnection.handleWrite]
  by_cases hwriting : x.writing = false
  · rw [if_pos hwriting]
    exact ⟨rfl,rfl,by simp [shutsDown,halfCloses]⟩
  · rw [if_neg hwriting]
    cases x.write x.outputBuffer.readable w with
    | none => exact ⟨rfl,rfl,by simp [shutsDown,halfCloses]⟩
    | some n =>
      dsimp only
      split_ifs <;> exact ⟨rfl,rfl,by simp [shutsDown,halfCloses]⟩

def Interest (x : TcpConnection) : Prop := x.writing = true ↔ x.outputBuffer.readable ≠ []

/-- What the loop thread does to the output of an open connection when
`more` joins it. -/
structure Flushes (x : TcpConnection) (r : TcpConnection × List (Output τ)) (more : Bytes) :
    Prop where
  stream : writtenOf r.2++r.1.outputBuffer.readable = x.outputBuffer.readable++more
  interest : Interest r.1
  shut : x.writeShut = true → writtenOf r.2 = []

theorem keep_readable (x : TcpConnection) (rest : Bytes) :
    (x.keep rest).outputBuffer.readable = x.outputBuffer.readable++rest := by
  rw [TcpConnection.keep]
  by_cases h : rest = []
  · rw [if_pos h,h,List.append_nil]
  · rw [if_neg h]
    exact readable_append _ _

theorem keep_interest {x : TcpConnection} (hi : Interest x) (rest : Bytes) :
    Interest (x.keep rest) := by
  rw [Interest,keep_readable,TcpConnection.keep]
  by_cases h : rest = []
  · rw [if_pos h,h,List.append_nil]
    exact hi
  · rw [if_neg h]
    simp [h]

theorem keep_flushes {x : TcpConnection} (hi : Interest x) (os : List (Output τ))
    (done rest : Bytes) (hw : writtenOf os = done) (hfast : done ≠ [] → x.outputBuffer.readable = [])
    (hshut : x.writeShut = true → done = []) :
    Flushes x (x.keep rest,os) (done++rest) where
  stream := by
    dsimp only
    rw [hw,keep_readable]
    by_cases hd : done = []
    · rw [hd,List.nil_append,List.nil_append]
    · rw [hfast hd,List.nil_append,List.nil_append]
  interest := keep_interest hi rest
  shut := fun h => hw.trans (hshut h)

theorem write_shut {x : TcpConnection} (h : x.writeShut = true) (data : Bytes) (w : WriteResult) :
    x.write data w = none := by
  cases w with
  | wrote n => rw [TcpConnection.write,if_pos h]
  | again => rfl
  | failed => rfl

theorem sendInLoop_flushes {x : TcpConnection} (hs : x.state ≠ .disconnected) (hi : Interest x)
    (sender : Option τ) (message : Bytes) (w : WriteResult) :
    Flushes x (x.sendInLoop sender message w) message ∧
    ranOf (x.sendInLoop sender message w).2 = [(sender,message)] ∧
    acceptedOf (x.sendInLoop sender message w).2 = [] := by
  rw [TcpConnection.sendInLoop,if_neg hs]
  by_cases hfast : x.writing = false ∧ x.outputBuffer.readableBytes = 0
  · rw [if_pos hfast]
    have hempty : x.outputBuffer.readable = [] :=
      List.eq_nil_of_length_eq_zero (by rw [readable_length,hfast.2])
    cases hw : x.write message w with
    | none =>
      refine ⟨?_,rfl,rfl⟩
      exact keep_flushes hi _ [] message rfl (fun h => absurd rfl h) (fun _ => rfl)
    | some n =>
      have hopen : x.writeShut ≠ true := by
        intro h
        rw [write_shut h] at hw
        cases hw
      dsimp only
      by_cases hall : message.length-n = 0
      · rw [if_pos hall]
        refine ⟨?_,rfl,rfl⟩
        have h := keep_flushes hi [.sendInLoop sender message,.wrote message,.writeComplete]
          message [] (by simp [writtenOf]) (fun _ => hempty) (fun h => absurd h hopen)
        rwa [List.append_nil,TcpConnection.keep,if_pos rfl] at h
      · rw [if_neg hall]
        refine ⟨?_,rfl,rfl⟩
        have h := keep_flushes hi [.sendInLoop sender message,.wrote (message.take n)]
          (message.take n) (message.drop n) (by simp [writtenOf]) (fun _ => hempty)
          (fun h => absurd h hopen)
        rwa [List.take_append_drop] at h
  · rw [if_neg hfast]
    refine ⟨?_,rfl,rfl⟩
    exact keep_flushes hi _ [] message rfl (fun h => absurd rfl h) (fun _ => rfl)

theorem handleWrite_flushes {x : TcpConnection} (hi : Interest x) (w : WriteResult) :
    Flushes x (x.handleWrite (τ := τ) w) [] ∧ ranOf (x.handleWrite (τ := τ) w).2 = [] ∧
    acceptedOf (x.handleWrite (τ := τ) w).2 = [] := by
  have hidle : Flushes x ((x,[]) : TcpConnection × List (Output τ)) [] :=
    ⟨by simp [writtenOf],hi,fun _ => rfl⟩
  rw [TcpConnection.handleWrite]
  by_cases hwriting : x.writing = false
  · rw [if_pos hwriting]
    exact ⟨hidle,rfl,rfl⟩
  · rw [if_neg hwriting]
    cases hw : x.write x.outputBuffer.readable w with
    | none => exact ⟨hidle,rfl,rfl⟩
    | some n =>
      have hopen : x.writeShut ≠ true := by
        intro h
        rw [write_shut h] at hw
        cases hw
      dsimp only
      by_cases hzero : n = 0
      · rw [if_pos hzero]
        exact ⟨hidle,rfl,rfl⟩
      · rw [if_neg hzero]
        have hleft : (x.outputBuffer.retrieve n).readable = x.outputBuffer.readable.drop n :=
          readable_retrieve _ _
        by_cases hall : (x.outputBuffer.retrieve n).readableBytes = 0
        · rw [if_pos hall]
          have hnil : (x.outputBuffer.retrieve n).readable = [] :=
            List.eq_nil_of_length_eq_zero (by rw [readable_length,hall])
          refine ⟨⟨?_,?_,fun h => absurd h hopen⟩,rfl,rfl⟩
          · simp [writtenOf,hleft,List.take_append_drop]
          · simp [Interest,hnil]
        · rw [if_neg hall]
          have hsome : (x.outputBuffer.retrieve n).readable ≠ [] := by
            intro h
            rw [← readable_length,h] at hall
            exact hall rfl
          refine ⟨⟨?_,?_,fun h => absurd h hopen⟩,rfl,rfl⟩
          · simp [writtenOf,hleft,List.take_append_drop]
          · simpa [Interest,hsome] using hwriting

theorem postedOf_start_send (q : PostQueue τ Functor) (t : τ) (message : Bytes) :
    postedOf (q.start t (.sendInLoop message)) = postedOf q++[(some t,message)] := by
  rw [postedOf,start_waiting,List.filterMap_append]
  rfl

theorem postedOf_start_shutdown (q : PostQueue τ Functor) (t : τ) :
    postedOf (q.start t .shutdownInLoop) = postedOf q := by
  rw [postedOf,start_waiting,List.filterMap_append]
  exact List.append_nil _

theorem postedOf_take_send {q : PostQueue τ Functor} {t : τ} {message : Bytes}
    {fs : List (τ × Functor)} (hb : q.batch = some ((t,.sendInLoop message)::fs)) :
    postedOf q = (some t,message)::postedOf { q with batch := some fs } := by
  rw [postedOf,take_waiting q _ _ hb]
  rfl

theorem postedOf_take_shutdown {q : PostQueue τ Functor} {t : τ} {fs : List (τ × Functor)}
    (hb : q.batch = some ((t,.shutdownInLoop)::fs)) :
    postedOf q = postedOf { q with batch := some fs } := by
  rw [postedOf,take_waiting q _ _ hb]
  rfl

theorem shutdownInLoop_quiet (x : TcpConnection) :
    (x.shutdownInLoop (τ := τ)).1.outputBuffer = x.outputBuffer ∧
    (x.shutdownInLoop (τ := τ)).1.writing = x.writing ∧
    (x.shutdownInLoop (τ := τ)).1.state = x.state ∧
    writtenOf (x.shutdownInLoop (τ := τ)).2 = [] ∧ ranOf (x.shutdownInLoop (τ := τ)).2 = [] ∧
    acceptedOf (x.shutdownInLoop (τ := τ)).2 = [] := by
  rw [TcpConnection.shutdownInLoop]
  by_cases h : x.writing = true
  · rw [if_pos h]
    exact ⟨rfl,rfl,rfl,rfl,rfl,rfl⟩
  · rw [if_neg h]
    exact ⟨rfl,rfl,rfl,rfl,rfl,rfl⟩

variable [DecidableEq τ]

theorem itemsOf_posted (q : PostQueue τ Functor) (t : τ) :
    itemsOf (some t) (postedOf q) = (itemsOf t q.waiting).filterMap Functor.message? := by
  rw [postedOf]
  induction q.waiting with
  | nil => rfl
  | cons x xs ih =>
    by_cases h : x.1 = t <;> cases hf : Functor.message? x.2 <;>
      simpa [itemsOf,h,hf] using ih

theorem itemsOf_posted_none (q : PostQueue τ Functor) : itemsOf none (postedOf q) = [] := by
  rw [itemsOf,List.filterMap_eq_nil_iff]
  intro x hx
  obtain ⟨y,-,hy⟩ := List.mem_filterMap.mp hx
  obtain ⟨message,-,rfl⟩ := Option.map_eq_some_iff.mp hy
  rfl

theorem itemsOf_posted_post (q : PostQueue τ Functor) (t : τ) (sender : Option τ) :
    itemsOf sender (postedOf (q.post t)) = itemsOf sender (postedOf q) := by
  cases sender with
  | none => rw [itemsOf_posted_none,itemsOf_posted_none]
  | some u => rw [itemsOf_posted,itemsOf_posted,post_waiting]

/-- Nothing is lost, repeated or reordered on the way out. -/
structure Integrity (s : EventLoop τ) (os : List (Output τ)) : Prop where
  stream : writtenOf os++s.conn.outputBuffer.readable = (ranOf os).flatMap Prod.snd
  order : ∀ sender, itemsOf sender (ranOf os)++itemsOf sender (postedOf s.functors) =
    itemsOf sender (acceptedOf os)
  interest : Interest s.conn

theorem integrity_send {s : EventLoop τ} {os : List (Output τ)} (h : Integrity s os)
    (hs : s.conn.state ≠ .disconnected) (sender : Option τ) (message : Bytes) (w : WriteResult)
    (q : PostQueue τ Functor) (new : List (Output τ)) (hwritten : writtenOf new = [])
    (hran : ranOf new = [])
    (hq : ∀ u, (if sender = u then [message] else [])++itemsOf u (postedOf q) =
      itemsOf u (postedOf s.functors)++itemsOf u (acceptedOf new)) :
    Integrity { conn := (s.conn.sendInLoop sender message w).1, functors := q }
      (os++(new++(s.conn.sendInLoop sender message w).2)) := by
  obtain ⟨hf,hr,ha⟩ := sendInLoop_flushes hs h.interest sender message w
  refine ⟨?_,?_,hf.interest⟩
  · simp only [writtenOf_append,ranOf_append,hwritten,hran,hr,List.nil_append,List.flatMap_append,
      List.append_assoc,hf.stream,← h.stream]
    simp
  · intro u
    have hone : itemsOf u [(sender,message)] = if sender = u then [message] else [] := by
      by_cases hu : sender = u <;> simp [itemsOf,hu]
    simp only [ranOf_append,acceptedOf_append,hran,hr,ha,itemsOf_append,List.nil_append,
      List.append_nil,← h.order u,List.append_assoc,← hq u,hone]

theorem integrity_quiet {s s' : EventLoop τ} {os new : List (Output τ)} (h : Integrity s os)
    (hbuffer : s'.conn.outputBuffer = s.conn.outputBuffer) (hwriting : s'.conn.writing = s.conn.writing)
    (hwritten : writtenOf new = []) (hran : ranOf new = [])
    (hq : ∀ u, itemsOf u (postedOf s'.functors) =
      itemsOf u (postedOf s.functors)++itemsOf u (acceptedOf new)) :
    Integrity s' (os++new) := by
  refine ⟨?_,?_,?_⟩
  · rw [writtenOf_append,ranOf_append,hwritten,hran,List.append_nil,List.append_nil,hbuffer]
    exact h.stream
  · intro u
    rw [ranOf_append,acceptedOf_append,hran,List.append_nil,itemsOf_append,hq u,← List.append_assoc,
      h.order u]
  · rw [Interest,hbuffer,hwriting]
    exact h.interest

theorem integrity_move {s : EventLoop τ} {os : List (Output τ)} (h : Integrity s os)
    (hs : s.conn.state ≠ .disconnected) {i : Input τ} {r : EventLoop τ × List (Output τ)}
    (hm : Move s i r) (hr : r.1.conn.state ≠ .disconnected) : Integrity r.1 (os++r.2) := by
  have hsame : ∀ u, itemsOf u (postedOf s.functors) =
      itemsOf u (postedOf s.functors)++itemsOf u (acceptedOf ([] : List (Output τ))) :=
    fun u => (List.append_nil _).symm
  cases hm with
  | stays => simpa using h
  | establishes hc => exact integrity_quiet h rfl rfl rfl rfl hsame
  | closes _ hi => exact absurd rfl hr
  | writes w hb =>
    obtain ⟨hf,hran,hacc⟩ := handleWrite_flushes (τ := τ) h.interest w
    refine ⟨?_,?_,hf.interest⟩
    · rw [writtenOf_append,ranOf_append,hran,List.append_nil,List.append_assoc,hf.stream,
        List.append_nil]
      exact h.stream
    · intro u
      rw [ranOf_append,acceptedOf_append,hran,hacc,List.append_nil,List.append_nil]
      exact h.order u
  | sends message w hc =>
    refine integrity_send h hs none message w s.functors [.accepted none message] rfl rfl ?_
    intro u
    cases u with
    | none =>
      rw [itemsOf_posted_none,if_pos rfl]
      rfl
    | some t => simp [acceptedOf,itemsOf]
  | shuts hc =>
    obtain ⟨hbuf,hwr,-,hw,hran,hacc⟩ :=
      shutdownInLoop_quiet (τ := τ) { s.conn with state := .disconnecting }
    apply integrity_quiet h hbuf hwr hw hran
    intro u
    rw [show acceptedOf _ = [] from hacc]
    exact hsame u
  | accepts t message hc =>
    refine integrity_quiet h rfl rfl rfl rfl fun u => ?_
    rw [postedOf_start_send,itemsOf_append]
    rfl
  | shutsLater t hc =>
    refine integrity_quiet h rfl rfl rfl rfl fun u => ?_
    rw [postedOf_start_shutdown]
    exact hsame u
  | posts t =>
    refine integrity_quiet h rfl rfl rfl rfl fun u => ?_
    rw [itemsOf_posted_post]
    exact hsame u
  | swaps hb =>
    refine integrity_quiet h rfl rfl rfl rfl fun u => ?_
    rw [postedOf,swap_waiting _ hb]
    exact hsame u
  | polls w hb =>
    refine integrity_quiet h rfl rfl rfl rfl fun u => ?_
    rw [EventLoop.setBatch,postedOf,done_waiting _ hb]
    exact hsame u
  | runsSend w t message fs hb =>
    refine integrity_send h hs (some t) message w _ [] rfl rfl fun u => ?_
    rw [postedOf_take_send hb,show acceptedOf [] = [] from rfl]
    by_cases hu : some t = u <;> simp [itemsOf,EventLoop.setBatch,hu]
  | runsShutdown w t fs hb =>
    obtain ⟨hbuf,hwr,-,hw,hran,hacc⟩ := shutdownInLoop_quiet (τ := τ) s.conn
    apply integrity_quiet h hbuf hwr hw hran
    intro u
    rw [show acceptedOf _ = [] from hacc,postedOf_take_shutdown hb]
    exact (List.append_nil _).symm

theorem move_open {s : EventLoop τ} {i : Input τ} {r : EventLoop τ × List (Output τ)}
    (hm : Move s i r) (hr : r.1.conn.state ≠ .disconnected) : s.conn.state ≠ .disconnected := by
  intro hs
  cases hm with
  | stays => exact hr hs
  | establishes hc => exact State.noConfusion (hs.symm.trans hc)
  | closes _ hi => exact hr rfl
  | writes w hb => exact hr ((handleWrite_unshut s.conn w).state.trans hs)
  | sends message w hc => exact State.noConfusion (hs.symm.trans hc)
  | shuts hc => exact State.noConfusion (hs.symm.trans hc)
  | accepts t message hc => exact hr hs
  | shutsLater t hc => exact State.noConfusion (hs.symm.trans hc)
  | posts t => exact hr hs
  | swaps hb => exact hr hs
  | polls w hb => exact hr hs
  | runsSend w t message fs hb =>
    exact hr ((sendInLoop_unshut s.conn (some t) message w).state.trans hs)
  | runsShutdown w t fs hb => exact hr ((shutdownInLoop_quiet (τ := τ) s.conn).2.2.1.trans hs)

theorem move_closed {s : EventLoop τ} {i : Input τ} {r : EventLoop τ × List (Output τ)}
    (hm : Move s i r) (h : s.conn.state = .disconnected → s.conn.writing = false)
    (hr : r.1.conn.state = .disconnected) : r.1.conn.writing = false := by
  cases hm with
  | stays => exact h hr
  | establishes hs => exact absurd hr State.noConfusion
  | closes _ hi => rfl
  | writes w hb =>
    have hs := (handleWrite_unshut (τ := τ) s.conn w).state.symm.trans hr
    simp [TcpConnection.handleWrite,h hs]
  | sends message w hs =>
    exact State.noConfusion (hs.symm.trans
      ((sendInLoop_unshut (τ := τ) s.conn none message w).state.symm.trans hr))
  | shuts hs =>
    exact State.noConfusion ((shutdownInLoop_quiet (τ := τ)
      { s.conn with state := .disconnecting }).2.2.1.symm.trans hr)
  | accepts t message hs => exact h hr
  | shutsLater t hs => exact absurd hr State.noConfusion
  | posts t => exact h hr
  | swaps hb => exact h hr
  | polls w hb => exact h hr
  | runsSend w t message fs hb =>
    have hs := (sendInLoop_unshut s.conn (some t) message w).state.symm.trans hr
    simp [EventLoop.runSend,EventLoop.setBatch,TcpConnection.sendInLoop,hs,h hs]
  | runsShutdown w t fs hb =>
    obtain ⟨-,hw,hs,-⟩ := shutdownInLoop_quiet (τ := τ) s.conn
    exact hw.trans (h (hs.symm.trans hr))

theorem integrity_start : Integrity ({} : EventLoop τ) [] :=
  ⟨by simp [writtenOf,ranOf,readable_new],fun _ => rfl,by simp [Interest,readable_new]⟩

theorem integrity_step (s : EventLoop τ) (os : List (Output τ)) (i : Input τ)
    (h : s.conn.state ≠ .disconnected → Integrity s os)
    (hr : (eventLoop.step s i).1.conn.state ≠ .disconnected) :
    Integrity (eventLoop.step s i).1 (os++(eventLoop.step s i).2) := by
  have hs := move_open (step_move s i) hr
  exact integrity_move (h hs) hs (step_move s i) hr

/-- In every run, whatever `::write` returns and however the threads and the
loop interleave: unless the connection was closed, the bytes the socket
accepted and the buffered ones are the messages whose `sendInLoop` has run,
whole, once each and in that order; each thread's messages run in its order,
followed by those it has posted; and the loop waits for write events exactly
while output is buffered. -/
theorem output_stream_intact (is : List (Input τ))
    (hopen : (eventLoop.run {} is).1.conn.state ≠ .disconnected) :
    writtenOf (eventLoop.run {} is).2++(eventLoop.run {} is).1.conn.outputBuffer.readable =
      (ranOf (eventLoop.run {} is).2).flatMap Prod.snd ∧
    (∀ sender, itemsOf sender (ranOf (eventLoop.run {} is).2)++
        itemsOf sender (postedOf (eventLoop.run {} is).1.functors) =
      itemsOf sender (acceptedOf (eventLoop.run {} is).2)) ∧
    ((eventLoop.run {} is).1.conn.writing = true ↔
      (eventLoop.run {} is).1.conn.outputBuffer.readable ≠ []) := by
  have h := run_invariant eventLoop (fun s os => s.conn.state ≠ .disconnected → Integrity s os)
    integrity_step {} is (fun _ => integrity_start) hopen
  exact ⟨h.stream,h.order,h.interest⟩

def sampleRun : List (Input ℕ) :=
  [.connectEstablished,.threadSend 1 [1,2,3],.threadSend 2 [4,5],.queueInLoop 2,.queueInLoop 1,
   .doPendingFunctors,.threadSend 1 [6],.runFunctor (.wrote 1),.runFunctor .again,.runFunctor .again,
   .handleWrite .failed,.handleWrite (.wrote 2)]

theorem output_stream_intact_two_threads :
    writtenOf (eventLoop.run {} sampleRun).2++
        (eventLoop.run {} sampleRun).1.conn.outputBuffer.readable =
      (ranOf (eventLoop.run {} sampleRun).2).flatMap Prod.snd ∧
    (ranOf (eventLoop.run {} sampleRun).2).flatMap Prod.snd = [4,5,1,2,3] ∧
    writtenOf (eventLoop.run {} sampleRun).2 = [4,5,1] :=
  ⟨(output_stream_intact sampleRun (by decide +kernel)).1,by decide +kernel,by decide +kernel⟩

end MiniRpc.OutputStream
