import MiniRpc.ConnectionDispatch

/-!
# Owners of a connection during its dispatch

The callbacks of a channel capture `this`, so while `handleEvent` runs the
connection lives through its entry in `connections_`, the temporaries that its
own functions make, and whoever else has a pointer to it: queued functors and
tasks of the thread pool, which may copy and drop theirs at any time.

The actions of one dispatch are performed one by one, interleaved with those
other owners. A copy needs an existing pointer.
-/

set_option autoImplicit false

namespace MiniRpc.DispatchOwners
open MiniRpc.ByteBuffer MiniRpc.ConnectionLoop MiniRpc.EventChannel MiniRpc.StepMachine
open MiniRpc.ConnectionDispatch

structure Owners where
  todo : List Action
  listed : Bool := true
  temporaries : ℕ := 0
  others : ℕ
  running : Bool := true
  deriving DecidableEq, Repr

def Owners.count (s : Owners) : ℕ := s.listed.toNat+s.temporaries+s.others

inductive Input where
  | next
  | copy
  | drop
  deriving DecidableEq, Repr

def Owners.perform (s : Owners) : Action → Owners
  | .acquire => { s with temporaries := s.temporaries+1 }
  | .release => { s with temporaries := s.temporaries-1 }
  | .erased => { s with listed := false }
  | _ => s

def ownersStep (s : Owners) : Input → Owners
  | .next =>
    match s.todo with
    | [] => { s with running := false }
    | a::as => { s with todo := as }.perform a
  | .copy => if s.count = 0 then s else { s with others := s.others+1 }
  | .drop => { s with others := s.others-1 }

def owners : Machine Owners Input Empty := ⟨fun s i => (ownersStep s i,[])⟩

def dispatching (s : Connection) (r : Revents) (rd : ReadResult) (w : WriteResult) (n : ℕ) : Owners :=
  { todo := (s.dispatch r rd w).2, others := n }

def Outlives (s : Owners) : Prop := s.running = true → 1 ≤ s.count

instance (s : Owners) : Decidable (Outlives s) := inferInstanceAs (Decidable (_ → _))

/-- The table entry is erased without another owner, or the last other owner
leaves after that. -/
def exposes (s : Owners) : Input → Bool
  | .next => s.running && s.todo.head? == some .erased && s.others == 0
  | .copy => false
  | .drop => s.running && !s.listed && s.others == 1

def closesRead : ReadResult → Bool
  | .eof => true
  | .failed => true
  | _ => false

def closesConnection (r : Revents) (rd : ReadResult) : Bool :=
  if r.epollhup && !r.epollin then true
  else (r.epollin || r.epollpri || r.epollrdhup) && closesRead rd

/-- The temporaries left after some actions; `none` where one is dropped that
was never made. -/
def drain : ℕ → List Action → Option ℕ
  | t, [] => some t
  | t, .acquire::as => drain (t+1) as
  | t, .release::as => if t = 0 then none else drain (t-1) as
  | t, _::as => drain t as

theorem drain_append (t : ℕ) (as bs : List Action) :
    drain t (as++bs) = (drain t as).bind fun u => drain u bs := by
  induction as generalizing t with
  | nil => rfl
  | cons a as ih =>
    cases a with
    | acquire => exact ih (t+1)
    | release =>
      rw [List.cons_append,drain,drain]
      split
      · rfl
      · exact ih (t-1)
    | setState _ => exact ih t
    | update _ => exact ih t
    | closeCallback => exact ih t
    | erased => exact ih t

def Nested (as : List Action) : Prop := ∀ t, drain t as = some t

theorem nested_nil : Nested [] := fun _ => rfl

theorem nested_append {as bs : List Action} (ha : Nested as) (hb : Nested bs) : Nested (as++bs) := by
  intro t
  rw [drain_append,ha t]
  exact hb t

theorem nested_hold {as : List Action} (h : Nested as) : Nested (.acquire::as++[.release]) := by
  intro t
  rw [List.cons_append,drain,drain_append,h (t+1)]
  rfl

structure Plain (as : List Action) : Prop where
  nested : Nested as
  listed : .erased ∉ as

theorem plain_nil : Plain [] := ⟨nested_nil,List.not_mem_nil⟩

theorem plain_append {as bs : List Action} (ha : Plain as) (hb : Plain bs) : Plain (as++bs) := by
  refine ⟨nested_append ha.nested hb.nested,fun h => ?_⟩
  cases List.mem_append.mp h with
  | inl h => exact ha.listed h
  | inr h => exact hb.listed h

theorem plain_hold {as : List Action} (h : Plain as) : Plain (.acquire::as++[.release]) := by
  refine ⟨nested_hold h.nested,fun he => h.listed ?_⟩
  simpa using he

theorem setOutput_plain (s : Connection) (x : TcpConnection) : Plain (s.setOutput x).2 := by
  rw [Connection.setOutput]
  dsimp only
  split
  · exact plain_nil
  · exact ⟨fun _ => rfl,by simp⟩

theorem completion_plain (os : List (Output Unit)) : Plain (completion os) := by
  rw [completion]
  split
  · exact plain_hold plain_nil
  · exact plain_nil

theorem handleWrite_plain (s : Connection) (w : WriteResult) : Plain (s.handleWrite w).2 :=
  plain_append (setOutput_plain s _) (completion_plain _)

theorem runFunctor_plain (s : Connection) (w : WriteResult) (f : Functor) :
    Plain (s.runFunctor w f).2 := by
  cases f with
  | sendInLoop message =>
    exact plain_hold (plain_append (setOutput_plain s _) (completion_plain _))
  | shutdownInLoop => exact plain_hold (setOutput_plain s _)

theorem call_plain (s : Connection) (c : Call) : Plain (s.call c).2 := by
  have hweak : Plain [Action.acquire,.release] := plain_hold plain_nil
  cases c with
  | send message w =>
    rw [Connection.call]
    split
    · exact plain_append hweak (runFunctor_plain _ w _)
    · exact plain_nil
  | shutdown =>
    rw [Connection.call]
    split
    · have hset : Plain [Action.setState .disconnecting] := ⟨fun _ => rfl,by simp⟩
      exact plain_append (plain_append hset hweak) (runFunctor_plain _ .again _)
    · exact plain_nil

theorem runCalls_plain (s : Connection) (cs : List Call) : Plain (s.runCalls cs).2 := by
  induction cs generalizing s with
  | nil => exact plain_nil
  | cons c cs ih => exact plain_append (call_plain s c) (ih _)

theorem connectDestroyed_nested (s : Connection) : Nested s.connectDestroyed.2 := by
  rw [Connection.connectDestroyed]
  split
  · exact fun _ => rfl
  · exact nested_nil

theorem removeConnection_nested (s : Connection) : Nested s.removeConnection.2 := by
  have herase : Nested (if s.listed then [Action.erased] else []) := by
    split
    · exact fun _ => rfl
    · exact nested_nil
  exact nested_hold (nested_append herase (connectDestroyed_nested _))

theorem handleClose_nested (s : Connection) : Nested s.handleClose.2 := by
  have hcall : Nested [Action.closeCallback] := fun _ => rfl
  have hset : Nested [Action.update {},.setState .disconnected] := fun _ => rfl
  exact nested_append hset (nested_hold (nested_append hcall (removeConnection_nested _)))

theorem handleClose_erases (s : Connection) (hl : s.listed = true) : .erased ∈ s.handleClose.2 := by
  simp [Connection.handleClose,Connection.disableAll,Connection.setState,andThen,holding,
    Connection.removeConnection,Connection.removeConnectionInLoop,hl]

theorem handleRead_nested (s : Connection) (rd : ReadResult) : Nested (s.handleRead rd).2 := by
  cases rd with
  | data calls => exact nested_hold (runCalls_plain s calls).nested
  | eof => exact handleClose_nested s
  | again => exact nested_nil
  | failed => exact handleClose_nested s

theorem callbacks_nested (s : Connection) (rd : ReadResult) (w : WriteResult) (cs : List Callback) :
    Nested (s.callbacks rd w cs).2 := by
  induction cs generalizing s with
  | nil => exact nested_nil
  | cons c cs ih =>
    have hc : Nested (s.callback rd w c).2 := by
      cases c with
      | read => exact handleRead_nested s rd
      | write => exact (handleWrite_plain s w).nested
      | close => exact handleClose_nested s
      | error => exact nested_nil
    exact nested_append hc (ih _)

theorem handleRead_erases_iff (s : Connection) (hl : s.listed = true) (rd : ReadResult) :
    .erased ∈ (s.handleRead rd).2 ↔ closesRead rd = true := by
  cases rd with
  | data calls =>
    exact iff_of_false (plain_hold (runCalls_plain s calls)).listed Bool.false_ne_true
  | eof => exact iff_of_true (handleClose_erases s hl) rfl
  | again => exact iff_of_false List.not_mem_nil Bool.false_ne_true
  | failed => exact iff_of_true (handleClose_erases s hl) rfl

theorem writeCallback_plain (s : Connection) (rd : ReadResult) (w : WriteResult) (out : Bool) :
    Plain (s.callbacks rd w (if out then [.write] else [])).2 := by
  cases out with
  | false => exact plain_nil
  | true => exact plain_append (handleWrite_plain s w) plain_nil

theorem readCallback_erases_iff (s : Connection) (hl : s.listed = true) (rd : ReadResult)
    (w : WriteResult) (readable out : Bool) :
    .erased ∈ (s.callbacks rd w
        ((if readable then [.read] else [])++(if out then [.write] else []))).2 ↔
      (readable && closesRead rd) = true := by
  cases readable with
  | false => exact iff_of_false (writeCallback_plain s rd w out).listed Bool.false_ne_true
  | true =>
    rw [Bool.true_and,← handleRead_erases_iff s hl rd]
    constructor
    · intro h
      cases List.mem_append.mp h with
      | inl h => exact h
      | inr h => exact absurd h (writeCallback_plain _ rd w out).listed
    · exact List.mem_append_left _

/-- The table entry goes during a dispatch exactly when the connection is
closed by it. -/
theorem dispatch_erases_iff (s : Connection) (hl : s.listed = true) (r : Revents) (rd : ReadResult)
    (w : WriteResult) : .erased ∈ (s.dispatch r rd w).2 ↔ closesConnection r rd = true := by
  rw [Connection.dispatch,handleEvent,closesConnection]
  split
  · exact iff_of_true (List.mem_append_left _ (handleClose_erases _ hl)) rfl
  · rw [List.append_assoc]
    have hrest := readCallback_erases_iff { s with revents := none } hl rd w
      (r.epollin || r.epollpri || r.epollrdhup) r.epollout
    cases r.epollerr with
    | false => exact hrest
    | true => exact hrest

/-- While `handleEvent` runs, the table or another owner has a pointer. -/
def Kept (s : Owners) : Prop := s.running = true → s.listed = true ∨ 1 ≤ s.others

theorem outlives_of_kept {s : Owners} (h : Kept s) : Outlives s := by
  intro hr
  rw [Owners.count]
  cases h hr with
  | inl hl =>
    rw [hl,Bool.toNat_true]
    omega
  | inr ho => omega

theorem perform_frame (s : Owners) (a : Action) :
    (s.perform a).others = s.others ∧ (s.perform a).running = s.running ∧
      (s.perform a).todo = s.todo := by
  cases a <;> exact ⟨rfl,rfl,rfl⟩

theorem perform_listed (s : Owners) (a : Action) (ha : a ≠ .erased) :
    (s.perform a).listed = s.listed := by
  cases a with
  | erased => exact absurd rfl ha
  | setState _ => rfl
  | update _ => rfl
  | closeCallback => rfl
  | acquire => rfl
  | release => rfl

theorem step_kept (s : Owners) (i : Input) (h : Kept s) (hx : exposes s i = false) :
    Kept (ownersStep s i) := by
  cases i with
  | next =>
    rw [ownersStep]
    cases ht : s.todo with
    | nil => exact fun hr => Bool.noConfusion hr
    | cons a as =>
      intro hr
      obtain ⟨ho,hrun,-⟩ := perform_frame { s with todo := as } a
      have hr' : s.running = true := hrun.symm.trans hr
      by_cases ha : a = .erased
      · have hne : s.others ≠ 0 := by
          intro h0
          simp [exposes,ht,ha,hr',h0] at hx
        exact .inr ((Nat.one_le_iff_ne_zero.mpr hne).trans_eq ho.symm)
      · rw [perform_listed _ a ha,ho]
        exact h hr'
  | copy =>
    rw [ownersStep]
    split
    · exact h
    · intro hr
      exact (h hr).imp id fun ho => Nat.le_succ_of_le ho
  | drop =>
    intro hr
    cases hl : s.listed with
    | true => exact .inl hl
    | false =>
      have hr' : s.running = true := hr
      have hone : s.others ≠ 1 := by
        intro h1
        simp [exposes,hr',hl,h1] at hx
      have hpos := (h hr').resolve_left (by rw [hl]; exact Bool.false_ne_true)
      exact .inr (show 1 ≤ s.others-1 by omega)

def Draining (s : Owners) : Prop := drain s.temporaries s.todo = some 0

theorem perform_draining {s : Owners} {a : Action} {as : List Action} (ht : s.todo = a::as)
    (h : Draining s) : Draining ({ s with todo := as }.perform a) := by
  rw [Draining,ht] at h
  cases a with
  | acquire => exact h
  | release =>
    rw [drain] at h
    split at h
    · exact absurd h.symm (Option.some_ne_none 0)
    · exact h
  | setState _ => exact h
  | update _ => exact h
  | closeCallback => exact h
  | erased => exact h

theorem step_draining (s : Owners) (i : Input) (h : Draining s) : Draining (ownersStep s i) := by
  cases i with
  | next =>
    rw [ownersStep]
    cases ht : s.todo with
    | nil =>
      rw [Draining,ht] at h
      exact h
    | cons a as => exact perform_draining ht h
  | copy =>
    rw [ownersStep]
    split
    · exact h
    · exact h
  | drop => exact h

/-- Without the table entry and without another owner the last temporary is
dropped before `handleEvent` returns. -/
theorem unowned_dies (s : Owners) (h : Draining s) (hl : s.listed = false) (ho : s.others = 0)
    (hr : s.running = true) : ∃ js, ¬ Outlives (owners.run s js).1 := by
  generalize ht : s.todo = todo
  induction todo generalizing s with
  | nil =>
    refine ⟨[],fun hlive => ?_⟩
    rw [Draining,ht] at h
    have hzero : s.temporaries = 0 := Option.some.inj h
    have hcount : 1 ≤ s.count := hlive hr
    rw [Owners.count,hl,ho,hzero] at hcount
    exact absurd hcount (by decide)
  | cons a as ih =>
    obtain ⟨ho',hr',ht'⟩ := perform_frame { s with todo := as } a
    have hl' : ({ s with todo := as }.perform a).listed = false := by
      by_cases ha : a = .erased
      · rw [ha]
        rfl
      · rw [perform_listed _ a ha]
        exact hl
    obtain ⟨js,hjs⟩ := ih _ (perform_draining ht h) hl' (ho'.trans ho) (hr'.trans hr) ht'
    have hstep : owners.step s .next = ({ s with todo := as }.perform a,[]) := by
      rw [owners]
      dsimp only
      rw [ownersStep,ht]
    refine ⟨.next::js,?_⟩
    rw [Machine.run,hstep]
    exact hjs

theorem exposed_dies (s : Owners) (i : Input) (h : Draining s) (hx : exposes s i = true) :
    ∃ js, ¬ Outlives (owners.run (ownersStep s i) js).1 := by
  have hd := step_draining s i h
  cases i with
  | next =>
    simp only [exposes,Bool.and_eq_true,beq_iff_eq] at hx
    obtain ⟨⟨hr,hhead⟩,ho⟩ := hx
    obtain ⟨as,ht⟩ := List.head?_eq_some_iff.mp hhead
    have hstep : ownersStep s .next = { s with todo := as, listed := false } := by
      rw [ownersStep,ht]
      rfl
    rw [hstep] at hd ⊢
    exact unowned_dies _ hd rfl ho hr
  | copy => exact Bool.noConfusion hx
  | drop =>
    simp only [exposes,Bool.and_eq_true,beq_iff_eq,Bool.not_eq_true'] at hx
    obtain ⟨⟨hr,hl⟩,ho⟩ := hx
    have hzero : (ownersStep s .drop).others = 0 := by
      rw [ownersStep,ho]
    exact unowned_dies _ hd hl hzero hr

theorem run_draining (s : Connection) (r : Revents) (rd : ReadResult) (w : WriteResult) (n : ℕ)
    (is : List Input) : Draining (owners.run (dispatching s r rd w n) is).1 :=
  run_invariant owners (fun t _ => Draining t) (fun t _ i h => step_draining t i h) _ is
    (callbacks_nested _ rd w (handleEvent r) 0)

/-- A connection outlives its dispatch in every run in which its table entry
is not erased without another owner and the last other owner does not leave
after that. In every other run the count may reach zero before `handleEvent`
returns; only events that close the connection erase the entry. -/
theorem dispatch_outlived (s : Connection) (hl : s.listed = true) (r : Revents) (rd : ReadResult)
    (w : WriteResult) (n : ℕ) :
    (.erased ∈ (s.dispatch r rd w).2 ↔ closesConnection r rd = true) ∧
    (∀ is, Along owners (fun t i => exposes t i = false) (dispatching s r rd w n) is →
      Always owners (fun t _ => Outlives t) (dispatching s r rd w n) [] is) ∧
    (∀ is i, exposes (owners.run (dispatching s r rd w n) is).1 i = true →
      ∃ js, ¬ Outlives (owners.run (dispatching s r rd w n) (is++i::js)).1) := by
  refine ⟨dispatch_erases_iff s hl r rd w,fun is hc => ?_,fun is i hx => ?_⟩
  · exact always_of_along owners (fun t i => exposes t i = false) (fun t _ => Kept t)
      (fun t _ => Outlives t) (fun _ _ h => outlives_of_kept h)
      (fun t _ i h hx => step_kept t i h hx) _ [] is (fun _ => .inl rfl) hc
  · obtain ⟨js,hjs⟩ := exposed_dies _ i (run_draining s r rd w n is) hx
    refine ⟨js,?_⟩
    rw [run_append]
    exact hjs

def established : Connection := (connection.run {} [.connectEstablished]).1

theorem pooled_connection_outlives :
    closesConnection { epollin := true } .eof = true ∧
    Always owners (fun t _ => Outlives t) (dispatching established { epollin := true } .eof .again 1) []
      (List.replicate 9 .next++[.drop]) :=
  ⟨rfl,(dispatch_outlived established rfl { epollin := true } .eof .again 1).2.1 _ (by decide +kernel)⟩

/-- The peer closes a connection that nobody else has a pointer to: after the
close callback no owner is left, and `handleEvent` has not returned. -/
theorem closed_connection_dies_in_dispatch :
    ¬ Outlives (owners.run (dispatching established { epollin := true, epollout := true } .eof .again 0)
        (List.replicate 8 .next)).1 ∧
      ¬ Outlives (owners.run (dispatching established { epollhup := true } .again .again 0)
        (List.replicate 8 .next)).1 := by
  decide +kernel

end MiniRpc.DispatchOwners
