import MiniRpc.StepMachine

/-!
# The loop thread and what wakes it

One step is one access of one thread to the members of `EventLoop` or to its
eventfd. The loop thread calls `loop()` once, as the threads of
`EventLoopPool` do; the object is handed out before that, so other threads
may call `queueInLoop`, `runInLoop` and `quit` at any time. `runInLoop` of the
loop thread only calls its argument. What callbacks and functors do is the
environment's choice: while one of them runs, or outside `loop()`, the loop
thread may call `queueInLoop` and `quit` itself. Its own push and the write
that may follow are one step, since it cannot poll in between.

Other threads that have pushed a functor, or stored the quit flag, and have
yet to write to the eventfd are counted.
-/

set_option autoImplicit false

namespace MiniRpc.ReactorLoop
open MiniRpc.StepMachine

variable {φ : Type}

/-- Inside `loop()`. `checking` is at the condition of the loop, `polling`
past it; `dispatching` runs the callbacks of the active channels, of which
the wake-up channel may still be one; `running` has the functors that
`doPendingFunctors` has swapped out, the first of which runs now. -/
inductive LoopPc (φ : Type) where
  | outside
  | entered
  | checking
  | polling
  | waiting
  | dispatching (wakeup : Bool)
  | draining
  | running (functors : List φ)
  | leaving
  | returned
  deriving DecidableEq, Repr

structure EventLoop (φ : Type) where
  looping : Bool := false
  quit : Bool := false
  eventfd : ℕ := 0
  pendingFunctors : List φ := []
  pc : LoopPc φ := .outside
  pushers : ℕ := 0
  quitters : ℕ := 0

inductive Output (φ : Type) where
  | polled
  | ran (f : φ)
  deriving DecidableEq, Repr

inductive Input (φ : Type) where
  | loop
  | pollReturned (wakeup : Bool)
  | queueInLoop (f : φ)
  | quitInLoop
  | push (f : φ)
  | pusherWakeup
  | quit
  | quitterWakeup
  deriving DecidableEq, Repr

/-- The largest value of an eventfd; a write to a full one fails with
`EAGAIN`. -/
def eventfdMax : ℕ := 0xfffffffffffffffe

def EventLoop.wakeup (s : EventLoop φ) : EventLoop φ :=
  { s with eventfd := if s.eventfd < eventfdMax then s.eventfd+1 else s.eventfd }

def LoopPc.userCode : LoopPc φ → Bool
  | .outside => true
  | .dispatching _ => true
  | .running (_::_) => true
  | .returned => true
  | _ => false

def EventLoop.push (s : EventLoop φ) (f : φ) : EventLoop φ :=
  { s with pendingFunctors := s.pendingFunctors++[f] }

def EventLoop.loopStep (s : EventLoop φ) : EventLoop φ × List (Output φ) :=
  match s.pc with
  | .outside => ({ s with looping := true, pc := .entered },[])
  | .entered => ({ s with quit := false, pc := .checking },[])
  | .checking => ({ s with pc := if s.quit then .leaving else .polling },[])
  | .polling => ({ s with pc := .waiting },[.polled])
  | .waiting => (s,[])
  | .dispatching true => ({ s with pc := .draining },[])
  | .draining =>
    if 0 < s.eventfd then ({ s with eventfd := 0, pc := .draining },[])
    else ({ s with pc := .dispatching false },[])
  | .dispatching false => ({ s with pendingFunctors := [], pc := .running s.pendingFunctors },[])
  | .running (f::fs) => ({ s with pc := .running fs },[.ran f])
  | .running [] => ({ s with pc := .checking },[])
  | .leaving => ({ s with looping := false, pc := .returned },[])
  | .returned => (s,[])

def eventLoop : Machine (EventLoop φ) (Input φ) (Output φ) where
  step s i :=
    match i with
    | .loop => s.loopStep
    | .pollReturned wakeup =>
      match s.pc with
      | .waiting => ({ s with pc := .dispatching (wakeup && 0 < s.eventfd) },[])
      | _ => (s,[])
    | .queueInLoop f =>
      if s.pc.userCode then (if s.looping then s.push f else (s.push f).wakeup,[]) else (s,[])
    | .quitInLoop => if s.pc.userCode then ({ s with quit := true },[]) else (s,[])
    | .push f => ({ s.push f with pushers := s.pushers+1 },[])
    | .pusherWakeup =>
      if 0 < s.pushers then ({ s.wakeup with pushers := s.pushers-1 },[]) else (s,[])
    | .quit => ({ s with quit := true, quitters := s.quitters+1 },[])
    | .quitterWakeup =>
      if 0 < s.quitters then ({ s.wakeup with quitters := s.quitters-1 },[]) else (s,[])

inductive Turn (s : EventLoop φ) : Input φ → EventLoop φ × List (Output φ) → Prop where
  | stays (i : Input φ) : Turn s i (s,[])
  | enters (hpc : s.pc = .outside) : Turn s .loop ({ s with looping := true, pc := .entered },[])
  | clears (hpc : s.pc = .entered) : Turn s .loop ({ s with quit := false, pc := .checking },[])
  | checks (hpc : s.pc = .checking) :
      Turn s .loop ({ s with pc := if s.quit then .leaving else .polling },[])
  | polls (hpc : s.pc = .polling) : Turn s .loop ({ s with pc := .waiting },[.polled])
  | pollReturns (wakeup : Bool) (hpc : s.pc = .waiting) :
      Turn s (.pollReturned wakeup) ({ s with pc := .dispatching (wakeup && 0 < s.eventfd) },[])
  | handles (hpc : s.pc = .dispatching true) : Turn s .loop ({ s with pc := .draining },[])
  | drains (hpc : s.pc = .draining) : Turn s .loop ({ s with eventfd := 0, pc := .draining },[])
  | drained (hpc : s.pc = .draining) : Turn s .loop ({ s with pc := .dispatching false },[])
  | swaps (hpc : s.pc = .dispatching false) :
      Turn s .loop ({ s with pendingFunctors := [], pc := .running s.pendingFunctors },[])
  | runs (f : φ) (fs : List φ) (hpc : s.pc = .running (f::fs)) :
      Turn s .loop ({ s with pc := .running fs },[.ran f])
  | repeats (hpc : s.pc = .running []) : Turn s .loop ({ s with pc := .checking },[])
  | returns (hpc : s.pc = .leaving) : Turn s .loop ({ s with looping := false, pc := .returned },[])
  | queues (f : φ) (hpc : s.pc.userCode = true) (hl : s.looping = true) :
      Turn s (.queueInLoop f) (s.push f,[])
  | queuesOutside (f : φ) (hpc : s.pc.userCode = true) (hl : s.looping = false) :
      Turn s (.queueInLoop f) ((s.push f).wakeup,[])
  | quitsInLoop (hpc : s.pc.userCode = true) : Turn s .quitInLoop ({ s with quit := true },[])
  | pushes (f : φ) : Turn s (.push f) ({ s.push f with pushers := s.pushers+1 },[])
  | pusherWakes (hp : 0 < s.pushers) :
      Turn s .pusherWakeup ({ s.wakeup with pushers := s.pushers-1 },[])
  | quits : Turn s .quit ({ s with quit := true, quitters := s.quitters+1 },[])
  | quitterWakes : Turn s .quitterWakeup ({ s.wakeup with quitters := s.quitters-1 },[])

theorem loopStep_turn (s : EventLoop φ) : Turn s .loop s.loopStep := by
  rw [EventLoop.loopStep.eq_def]
  cases hpc : s.pc with
  | outside => exact .enters hpc
  | entered => exact .clears hpc
  | checking => exact .checks hpc
  | polling => exact .polls hpc
  | waiting => exact .stays _
  | dispatching wakeup =>
    cases wakeup with
    | true => exact .handles hpc
    | false => exact .swaps hpc
  | draining =>
    dsimp only
    split_ifs
    · exact .drains hpc
    · exact .drained hpc
  | running functors =>
    cases functors with
    | nil => exact .repeats hpc
    | cons f fs => exact .runs f fs hpc
  | leaving => exact .returns hpc
  | returned => exact .stays _

theorem step_turn (s : EventLoop φ) (i : Input φ) : Turn s i (eventLoop.step s i) := by
  cases i with
  | loop => exact loopStep_turn s
  | pollReturned wakeup =>
    simp only [eventLoop]
    cases hpc : s.pc with
    | waiting => exact .pollReturns wakeup hpc
    | _ => exact .stays _
  | queueInLoop f =>
    by_cases hpc : s.pc.userCode = true
    · cases hl : s.looping with
      | true => simpa only [eventLoop,if_pos hpc,hl,if_true] using Turn.queues f hpc hl
      | false =>
        simpa only [eventLoop,if_pos hpc,hl,Bool.false_eq_true,if_false] using
          Turn.queuesOutside f hpc hl
    · simpa only [eventLoop,if_neg hpc] using Turn.stays _
  | quitInLoop =>
    by_cases hpc : s.pc.userCode = true
    · simpa only [eventLoop,if_pos hpc] using Turn.quitsInLoop hpc
    · simpa only [eventLoop,if_neg hpc] using Turn.stays _
  | push f => exact .pushes f
  | pusherWakeup =>
    by_cases hp : 0 < s.pushers
    · simpa only [eventLoop,if_pos hp] using Turn.pusherWakes hp
    · simpa only [eventLoop,if_neg hp] using Turn.stays _
  | quit => exact .quits
  | quitterWakeup =>
    by_cases hp : 0 < s.quitters
    · simpa only [eventLoop,if_pos hp] using Turn.quitterWakes
    · simpa only [eventLoop,if_neg hp] using Turn.stays _

theorem wakeup_pos (s : EventLoop φ) : 0 < s.wakeup.eventfd := by
  rw [EventLoop.wakeup]
  dsimp only
  split_ifs with h
  · exact Nat.succ_pos _
  · rw [eventfdMax] at h
    omega

def isPoll : Output φ → Bool
  | .polled => true
  | _ => false

def polls (os : List (Output φ)) : ℕ := os.countP isPoll

def LoopPc.started : LoopPc φ → Bool
  | .outside => false
  | .entered => false
  | _ => true

def LoopPc.due : LoopPc φ → ℕ
  | .polling => 1
  | _ => 0

def Heard (s : EventLoop φ) : Prop := s.quit = true ∧ s.pc.started = true

theorem turn_heard {s : EventLoop φ} {i : Input φ} {r : EventLoop φ × List (Output φ)}
    (ht : Turn s i r) (h : Heard s) : Heard r.1 ∧ polls r.2+r.1.pc.due ≤ s.pc.due := by
  obtain ⟨hq,hs⟩ := h
  cases ht with
  | enters hpc => rw [hpc] at hs; cases hs
  | clears hpc => rw [hpc] at hs; cases hs
  | checks hpc =>
    have hleave : (if s.quit then LoopPc.leaving else .polling : LoopPc φ) = .leaving := if_pos hq
    rw [hleave]
    exact ⟨⟨hq,rfl⟩,Nat.zero_le _⟩
  | polls hpc => rw [hpc]; exact ⟨⟨hq,rfl⟩,Nat.le_refl _⟩
  | drains hpc => rw [hpc]; exact ⟨⟨hq,rfl⟩,Nat.le_refl _⟩
  | drained hpc => rw [hpc]; exact ⟨⟨hq,rfl⟩,Nat.le_refl _⟩
  | pollReturns wakeup hpc => rw [hpc]; exact ⟨⟨hq,rfl⟩,Nat.le_refl _⟩
  | handles hpc => rw [hpc]; exact ⟨⟨hq,rfl⟩,Nat.le_refl _⟩
  | swaps hpc => rw [hpc]; exact ⟨⟨hq,rfl⟩,Nat.le_refl _⟩
  | runs f fs hpc => rw [hpc]; exact ⟨⟨hq,rfl⟩,Nat.le_refl _⟩
  | repeats hpc => rw [hpc]; exact ⟨⟨hq,rfl⟩,Nat.le_refl _⟩
  | returns hpc => rw [hpc]; exact ⟨⟨hq,rfl⟩,Nat.le_refl _⟩
  | quitsInLoop hpc => exact ⟨⟨rfl,hs⟩,Nat.le_of_eq (Nat.zero_add _)⟩
  | quits => exact ⟨⟨rfl,hs⟩,Nat.le_of_eq (Nat.zero_add _)⟩
  | _ => exact ⟨⟨hq,hs⟩,Nat.le_of_eq (Nat.zero_add _)⟩

theorem run_heard {s : EventLoop φ} (h : Heard s) (is : List (Input φ)) :
    polls (eventLoop.run s is).2 ≤ s.pc.due := by
  suffices hall : polls (eventLoop.run s is).2+(eventLoop.run s is).1.pc.due ≤ s.pc.due by omega
  induction is generalizing s with
  | nil => exact Nat.le_of_eq (Nat.zero_add _)
  | cons i is ih =>
    obtain ⟨hnext,hle⟩ := turn_heard (step_turn s i) h
    have hrest := ih hnext
    rw [Machine.run,polls,List.countP_append]
    rw [polls] at hle hrest
    dsimp only
    omega

/-- Once `quit()` is called by another thread, the loop thread begins no poll
but that of the iteration in progress, exactly if it is past the
initialization of its flags. -/
theorem quit_heard_iff (is : List (Input φ)) :
    (∀ more, polls (eventLoop.run (eventLoop.run {} is).1 (.quit::more)).2 ≤
      (eventLoop.run {} is).1.pc.due) ↔ (eventLoop.run ({} : EventLoop φ) is).1.pc.started = true := by
  generalize (eventLoop.run ({} : EventLoop φ) is).1 = s
  constructor
  · intro h
    by_contra hno
    have hstart : s.pc = .outside ∨ s.pc = .entered := by
      cases hpc : s.pc <;> rw [hpc] at hno <;> simp_all [LoopPc.started]
    rcases hstart with hpc | hpc
    · have hpolls := h [.loop,.loop,.loop,.loop]
      simp [Machine.run,eventLoop,EventLoop.loopStep,hpc,polls,isPoll,LoopPc.due] at hpolls
    · have hpolls := h [.loop,.loop,.loop]
      simp [Machine.run,eventLoop,EventLoop.loopStep,hpc,polls,isPoll,LoopPc.due] at hpolls
  · intro hs more
    exact run_heard (s := { s with quit := true, quitters := s.quitters+1 }) ⟨rfl,hs⟩ more

/-- A quit request that comes before the thread is in `loop()` is forgotten:
neither the flag nor the wake-up keeps the loop from polling a second time. -/
theorem early_quit_forgotten :
    (eventLoop.run ({} : EventLoop ℕ) []).1.pc.due = 0 ∧
    polls (eventLoop.run ({} : EventLoop ℕ) [.quit,.quitterWakeup,.loop,.loop,.loop,.loop,
      .pollReturned true,.loop,.loop,.loop,.loop,.loop,.loop,.loop]).2 = 2 := by
  decide

/-- The loop thread begins to poll with work in the queue, and nothing will
end the poll. -/
def sleepsOnWork (s : EventLoop φ) : Input φ → Bool
  | .loop =>
    match s.pc with
    | .polling => !s.pendingFunctors.isEmpty && s.eventfd = 0 && s.pushers = 0
    | _ => false
  | _ => false

/-- A functor that `doPendingFunctors` runs queues another one, and no
wake-up is on its way. -/
def queuesUnseen (s : EventLoop φ) : Input φ → Bool
  | .queueInLoop _ =>
    match s.pc with
    | .running (_::_) => s.eventfd = 0 && s.pushers = 0 && !s.quit
    | _ => false
  | _ => false

def LoopPc.inLoop : LoopPc φ → Bool
  | .outside => false
  | .returned => false
  | _ => true

def Signalled (s : EventLoop φ) : Prop := 0 < s.eventfd ∨ 0 < s.pushers

/-- Where the queue is not swapped again before the next poll, the loop is
woken from it, or else it is about to end. -/
def Announced (s : EventLoop φ) : Prop :=
  match s.pc with
  | .outside => Signalled s
  | .entered => Signalled s
  | .checking => Signalled s ∨ s.quit = true
  | .polling => Signalled s
  | .running _ => Signalled s ∨ s.quit = true
  | _ => True

def Attentive (s : EventLoop φ) : Prop := s.pendingFunctors ≠ [] → Announced s

theorem turn_looping {s : EventLoop φ} {i : Input φ} {r : EventLoop φ × List (Output φ)}
    (ht : Turn s i r) (h : s.looping = s.pc.inLoop) : r.1.looping = r.1.pc.inLoop := by
  cases ht with
  | enters hpc => rfl
  | returns hpc => rfl
  | clears hpc => rw [hpc] at h; exact h
  | checks hpc =>
    rw [hpc] at h
    cases hq : s.quit <;> exact h
  | polls hpc => rw [hpc] at h; exact h
  | pollReturns wakeup hpc => rw [hpc] at h; exact h
  | handles hpc => rw [hpc] at h; exact h
  | drains hpc => rw [hpc] at h; exact h
  | drained hpc => rw [hpc] at h; exact h
  | swaps hpc => rw [hpc] at h; exact h
  | runs f fs hpc => rw [hpc] at h; exact h
  | repeats hpc => rw [hpc] at h; exact h
  | _ => exact h

theorem announced_signalled {s : EventLoop φ} (h : Signalled s) : Announced s := by
  rw [Announced.eq_def]
  cases s.pc <;> first | exact h | exact .inl h | trivial

theorem announced_quit {s s' : EventLoop φ} (h : Announced s) (hpc : s'.pc = s.pc)
    (hfd : s'.eventfd = s.eventfd) (hp : s'.pushers = s.pushers) (hq : s'.quit = true) :
    Announced s' := by
  have hsignal : Signalled s → Signalled s' := by
    rw [Signalled,Signalled,hfd,hp]
    exact id
  rw [Announced.eq_def] at h ⊢
  rw [hpc]
  cases hs : s.pc <;> rw [hs] at h <;> first | exact hsignal h | exact .inr hq | trivial

section
variable {s : EventLoop φ}

theorem queue_announced (f : φ) (hpc : s.pc.userCode = true) (hl : s.pc.inLoop = true)
    (hi : queuesUnseen s (.queueInLoop f) = false) : Announced (s.push f) := by
  show Announced s
  rw [Announced.eq_def]
  cases hs : s.pc with
  | outside => rw [hs] at hl; cases hl
  | running fs =>
    cases fs with
    | nil => rw [hs] at hpc; cases hpc
    | cons g gs =>
      simp only [queuesUnseen,hs] at hi
      dsimp only
      by_contra hno
      simp only [Signalled,not_or,Nat.not_lt,Nat.le_zero,Bool.not_eq_true] at hno
      simp [hno] at hi
  | dispatching wakeup => trivial
  | returned => trivial
  | _ => rw [hs] at hpc; cases hpc

theorem turn_attentive {i : Input φ} {r : EventLoop φ × List (Output φ)} (ht : Turn s i r)
    (hl : s.looping = s.pc.inLoop) (h : Attentive s) (hi : queuesUnseen s i = false) :
    Attentive r.1 := by
  rw [Attentive] at h
  cases ht with
  | stays i => exact h
  | queues f hpc hlooping => exact fun _ => queue_announced f hpc (hl.symm.trans hlooping) hi
  | queuesOutside f hpc hlooping => exact fun _ => announced_signalled (.inl (wakeup_pos _))
  | quitsInLoop hpc => exact fun hne => announced_quit (h hne) rfl rfl rfl rfl
  | pushes f => exact fun _ => announced_signalled (.inr (Nat.succ_pos _))
  | pusherWakes hp => exact fun _ => announced_signalled (.inl (wakeup_pos s))
  | quits => exact fun hne => announced_quit (h hne) rfl rfl rfl rfl
  | quitterWakes => exact fun _ => announced_signalled (.inl (wakeup_pos s))
  | enters hpc =>
    rw [Announced.eq_def,hpc] at h
    exact h
  | clears hpc =>
    rw [Announced.eq_def,hpc] at h
    exact fun hne => .inl (h hne)
  | checks hpc =>
    rw [Announced.eq_def,hpc] at h
    cases hq : s.quit with
    | true => exact fun _ => trivial
    | false =>
      refine fun hne => (h hne).resolve_right ?_
      rw [hq]
      exact Bool.false_ne_true
  | swaps hpc => exact fun hne => absurd rfl hne
  | runs f fs hpc =>
    rw [Announced.eq_def,hpc] at h
    exact h
  | repeats hpc =>
    rw [Announced.eq_def,hpc] at h
    exact h
  | _ => exact fun _ => trivial

theorem attentive_awake (h : Attentive s) (i : Input φ) : sleepsOnWork s i = false := by
  rw [sleepsOnWork.eq_def]
  split
  case h_2 => rfl
  case h_1 =>
    split
    case h_2 => rfl
    case h_1 hpc =>
      rw [Attentive,Announced.eq_def,hpc] at h
      cases hp : s.pendingFunctors with
      | nil => rfl
      | cons f fs =>
        rcases h (by rw [hp]; exact List.cons_ne_nil _ _) with hfd | hpush
        · simp [Nat.pos_iff_ne_zero.mp hfd]
        · simp [Nat.pos_iff_ne_zero.mp hpush]

theorem run_functors (fs : List φ) (hpc : s.pc = .running fs) :
    (eventLoop.run s (List.replicate (fs.length+1) .loop)).1 = { s with pc := .checking } := by
  induction fs generalizing s with
  | nil => simp [Machine.run,eventLoop,EventLoop.loopStep,hpc]
  | cons f fs ih =>
    rw [List.length_cons,List.replicate_succ,Machine.run]
    have hstep : (eventLoop.step s .loop).1 = { s with pc := .running fs } := by
      simp only [eventLoop,EventLoop.loopStep,hpc]
    dsimp only
    rw [hstep]
    exact ih rfl

theorem unseen_sleeps (hl : s.looping = s.pc.inLoop) {i : Input φ} (hi : queuesUnseen s i = true) :
    ∃ more, sleepsOnWork (eventLoop.run s (i::more)).1 .loop = true := by
  rw [queuesUnseen.eq_def] at hi
  split at hi
  case h_2 => cases hi
  case h_1 f =>
    split at hi
    case h_2 => cases hi
    case h_1 g gs hpc =>
      simp only [Bool.and_eq_true,decide_eq_true_eq,Bool.not_eq_true'] at hi
      obtain ⟨⟨hfd,hp⟩,hq⟩ := hi
      rw [hpc] at hl
      have hstep : (eventLoop.step s (.queueInLoop f)).1 = s.push f := by
        simp only [eventLoop,hpc,LoopPc.userCode,if_true,hl,LoopPc.inLoop]
      have hrun := run_functors (s := s.push f) (g::gs) hpc
      refine ⟨List.replicate ((g::gs).length+1) .loop++[.loop],?_⟩
      have hlast : (eventLoop.run s (.queueInLoop f::
          (List.replicate ((g::gs).length+1) .loop++[.loop]))).1 =
          { s.push f with pc := .polling } := by
        rw [Machine.run]
        dsimp only
        rw [hstep,run_append]
        dsimp only
        rw [hrun]
        simp [Machine.run,eventLoop,EventLoop.loopStep,EventLoop.push,hq]
      rw [hlast]
      simp [sleepsOnWork,EventLoop.push,hfd,hp]

end

/-- As long as no functor queues another one without a wake-up on its way, the
loop thread never polls with work in the queue that nobody has announced;
and where one does, the loop can go on to do so. -/
theorem loop_never_sleeps_on_work :
    (∀ is : List (Input φ), Along eventLoop (fun s i => queuesUnseen s i = false) {} is →
      Along eventLoop (fun s i => sleepsOnWork s i = false) {} is) ∧
    (∀ (is : List (Input φ)) (i : Input φ), queuesUnseen (eventLoop.run {} is).1 i = true →
      ∃ more, sleepsOnWork (eventLoop.run {} (is++i::more)).1 .loop = true) := by
  refine ⟨fun is h => ?_,fun is i hi => ?_⟩
  · refine along_of_along eventLoop _ _ (fun s => s.looping = s.pc.inLoop ∧ Attentive s)
      (fun s i hs _ => attentive_awake hs.2 i) ?_ {} is ⟨rfl,fun hne => absurd rfl hne⟩ h
    intro s i hs hi
    exact ⟨turn_looping (step_turn s i) hs.1,turn_attentive (step_turn s i) hs.1 hs.2 hi⟩
  · have hl := run_invariant eventLoop
      (fun (s : EventLoop φ) (_ : List (Output φ)) => s.looping = s.pc.inLoop)
      (fun s _ i hs => turn_looping (step_turn s i) hs) {} is rfl
    obtain ⟨more,hmore⟩ := unseen_sleeps hl hi
    refine ⟨more,?_⟩
    rw [run_append]
    exact hmore

def runsFunctor : List (Input ℕ) :=
  [.loop,.loop,.loop,.loop,.push 1,.pusherWakeup,.pollReturned true,.loop,.loop,.loop,.loop]

theorem functor_queues_with_wakeup :
    Along eventLoop (fun s i => sleepsOnWork s i = false) ({} : EventLoop ℕ)
      (runsFunctor++[.push 3,.queueInLoop 2,.loop,.loop,.loop,.loop]) ∧
    ∃ more, sleepsOnWork (eventLoop.run ({} : EventLoop ℕ)
      (runsFunctor++.queueInLoop 2::more)).1 .loop = true :=
  ⟨loop_never_sleeps_on_work.1 _ (by decide),
    loop_never_sleeps_on_work.2 runsFunctor (.queueInLoop 2) (by decide)⟩

/-- Functor 1 queues functor 2; the next poll finds it in the queue and the
eventfd empty. -/
theorem queued_functor_waits :
    (eventLoop.run ({} : EventLoop ℕ)
      (runsFunctor++[.queueInLoop 2,.loop,.loop,.loop])).1.pendingFunctors = [2] ∧
    sleepsOnWork (eventLoop.run ({} : EventLoop ℕ)
      (runsFunctor++[.queueInLoop 2,.loop,.loop,.loop])).1 .loop = true := by
  decide

end MiniRpc.ReactorLoop
