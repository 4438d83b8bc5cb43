import MiniRpc.ReactorLoop
import MiniRpc.Settling

/-!
# The loops of an `EventLoopPool`

`start` makes one thread for each loop; the thread hands its loop out and then
calls `loop()`. The destructor calls `quit()` on every loop, one after the
other, and joins the threads. A thread that has not got past the stores at the
head of `loop()` by then forgets the request. If one has, the destructor never
returns; if none has, every order of the threads' steps lets it return.
-/

set_option autoImplicit false

namespace MiniRpc.LoopPool
open MiniRpc.StepMachine MiniRpc.ReactorLoop MiniRpc.Settling

variable {φ : Type}

/-- `quitting` is about to store the flag of a loop, `waking` about to write
to its eventfd. -/
inductive DestructorPc where
  | alive
  | quitting (k : ℕ)
  | waking (k : ℕ)
  | joining (k : ℕ)
  | destroyed
  deriving DecidableEq, Repr

structure EventLoopPool (φ : Type) where
  loops : List (EventLoop φ)
  destructor : DestructorPc := .alive

inductive Input (φ : Type) where
  | loop (k : ℕ) (i : ReactorLoop.Input φ)
  | destructor

def start (threadCount : ℕ) : EventLoopPool φ :=
  { loops := List.replicate (if threadCount = 0 then 1 else threadCount) {} }

def hasReturned : LoopPc φ → Bool
  | .returned => true
  | _ => false

def EventLoopPool.step (s : EventLoopPool φ) (k : ℕ) (i : ReactorLoop.Input φ) : EventLoopPool φ :=
  match s.loops[k]? with
  | none => s
  | some l => { s with loops := s.loops.set k (eventLoop.step l i).1 }

def EventLoopPool.destructorStep (s : EventLoopPool φ) : EventLoopPool φ :=
  match s.destructor with
  | .alive => { s with destructor := .quitting 0 }
  | .quitting k =>
    if k < s.loops.length then { s.step k .quit with destructor := .waking k }
    else { s with destructor := .joining 0 }
  | .waking k => { s.step k .quitterWakeup with destructor := .quitting (k+1) }
  | .joining k =>
    match s.loops[k]? with
    | none => { s with destructor := .destroyed }
    | some l => if hasReturned l.pc then { s with destructor := .joining (k+1) } else s
  | .destroyed => s

def loopPool : Machine (EventLoopPool φ) (Input φ) Empty where
  step s i :=
    match i with
    | .loop k j => (s.step k j,[])
    | .destructor => (s.destructorStep,[])

/-- A loop that is leaving has seen the flag, and one that polls although it
will see the flag is about to be woken. -/
structure Sound (l : EventLoop φ) : Prop where
  left : l.pc = .leaving ∨ l.pc = .returned → l.quit = true
  woken : Heard l → l.pc = .polling ∨ l.pc = .waiting → 0 < l.eventfd ∨ 0 < l.quitters

theorem turn_sound {l : EventLoop φ} {i : ReactorLoop.Input φ}
    {r : EventLoop φ × List (ReactorLoop.Output φ)} (ht : Turn l i r) (h : Sound l) : Sound r.1 := by
  cases ht with
  | stays i => exact h
  | enters hpc => exact ⟨by simp,by simp⟩
  | clears hpc => exact ⟨by simp,by simp⟩
  | checks hpc =>
    cases hq : l.quit with
    | true => exact ⟨fun _ => rfl,by simp⟩
    | false => exact ⟨by simp,fun hheard => Bool.noConfusion hheard.1⟩
  | polls hpc => exact ⟨by simp,fun hheard _ => h.woken ⟨hheard.1,by rw [hpc]; rfl⟩ (.inl hpc)⟩
  | pollReturns wakeup hpc => exact ⟨by simp,by simp⟩
  | handles hpc => exact ⟨by simp,by simp⟩
  | drains hpc => exact ⟨by simp,by simp⟩
  | drained hpc => exact ⟨by simp,by simp⟩
  | swaps hpc => exact ⟨by simp,by simp⟩
  | runs f fs hpc => exact ⟨by simp,by simp⟩
  | repeats hpc => exact ⟨by simp,by simp⟩
  | returns hpc => exact ⟨fun _ => h.left (.inl hpc),by simp⟩
  | queues f hpc hl => exact ⟨h.left,h.woken⟩
  | queuesOutside f hpc hl => exact ⟨h.left,fun _ _ => .inl (wakeup_pos _)⟩
  | quitsInLoop hpc =>
    refine ⟨fun _ => rfl,fun _ (hat : l.pc = .polling ∨ l.pc = .waiting) => ?_⟩
    rcases hat with hat | hat
    · rw [hat] at hpc
      exact Bool.noConfusion hpc
    · rw [hat] at hpc
      exact Bool.noConfusion hpc
  | pushes f => exact ⟨h.left,h.woken⟩
  | pusherWakes hp => exact ⟨h.left,fun _ _ => .inl (wakeup_pos l)⟩
  | quits => exact ⟨fun _ => rfl,fun _ _ => .inr (Nat.succ_pos _)⟩
  | quitterWakes => exact ⟨h.left,fun _ _ => .inl (wakeup_pos l)⟩

/-- The flag has been forgotten, or will be. -/
def Deaf (l : EventLoop φ) : Prop :=
  l.pc.started = false ∨ l.quit = false ∧ l.pc ≠ .leaving ∧ l.pc ≠ .returned

theorem deaf_of_not_heard {l : EventLoop φ} (h : Sound l) (hno : ¬ Heard l) : Deaf l := by
  cases hs : l.pc.started with
  | false => exact .inl hs
  | true =>
    have hq : l.quit = false := by
      cases hq : l.quit with
      | false => rfl
      | true => exact absurd ⟨hq,hs⟩ hno
    refine .inr ⟨hq,fun hpc => ?_,fun hpc => ?_⟩
    · exact absurd (hq.symm.trans (h.left (.inl hpc))) Bool.false_ne_true
    · exact absurd (hq.symm.trans (h.left (.inr hpc))) Bool.false_ne_true

theorem deaf_not_returned {l : EventLoop φ} (h : Deaf l) : hasReturned l.pc = false := by
  rcases h with h | ⟨-,-,h⟩
  · cases hpc : l.pc <;> rw [hpc] at h <;> first | rfl | exact Bool.noConfusion h
  · cases hpc : l.pc <;> first | rfl | exact absurd hpc h

def quits : ReactorLoop.Input φ → Bool
  | .quit => true
  | .quitInLoop => true
  | _ => false

theorem turn_deaf {l : EventLoop φ} {i : ReactorLoop.Input φ}
    {r : EventLoop φ × List (ReactorLoop.Output φ)} (ht : Turn l i r) (hi : quits i = false)
    (h : Deaf l) : Deaf r.1 := by
  have hclear : l.pc.started = true → l.quit = false := by
    intro hs
    rcases h with hno | ⟨hq,-⟩
    · exact absurd (hno.symm.trans hs) Bool.false_ne_true
    · exact hq
  cases ht with
  | stays i => exact h
  | enters hpc => exact .inl rfl
  | clears hpc => exact .inr ⟨rfl,by simp,by simp⟩
  | checks hpc =>
    have hq := hclear (by rw [hpc]; rfl)
    exact .inr ⟨hq,by simp [hq],by simp [hq]⟩
  | polls hpc => exact .inr ⟨hclear (by rw [hpc]; rfl),by simp,by simp⟩
  | pollReturns wakeup hpc => exact .inr ⟨hclear (by rw [hpc]; rfl),by simp,by simp⟩
  | handles hpc => exact .inr ⟨hclear (by rw [hpc]; rfl),by simp,by simp⟩
  | drains hpc => exact .inr ⟨hclear (by rw [hpc]; rfl),by simp,by simp⟩
  | drained hpc => exact .inr ⟨hclear (by rw [hpc]; rfl),by simp,by simp⟩
  | swaps hpc => exact .inr ⟨hclear (by rw [hpc]; rfl),by simp,by simp⟩
  | runs f fs hpc => exact .inr ⟨hclear (by rw [hpc]; rfl),by simp,by simp⟩
  | repeats hpc => exact .inr ⟨hclear (by rw [hpc]; rfl),by simp,by simp⟩
  | returns hpc =>
    rcases h with hno | ⟨-,hne,-⟩
    · rw [hpc] at hno
      exact Bool.noConfusion hno
    · exact absurd hpc hne
  | quitsInLoop hpc => exact Bool.noConfusion hi
  | quits => exact Bool.noConfusion hi
  | queues f hpc hl => exact h
  | queuesOutside f hpc hl => exact h
  | pushes f => exact h
  | pusherWakes hp => exact h
  | quitterWakes => exact h

def pcRank (l : EventLoop φ) : ℕ :=
  match l.pc with
  | .outside => 0
  | .entered => 0
  | .polling => 9+l.pendingFunctors.length
  | .waiting => 8+l.pendingFunctors.length
  | .dispatching true => 7+l.pendingFunctors.length
  | .draining => (if 0 < l.eventfd then 6 else 5)+l.pendingFunctors.length
  | .dispatching false => 4+l.pendingFunctors.length
  | .running fs => 3+fs.length
  | .checking => 2
  | .leaving => 1
  | .returned => 0

def loopRank (l : EventLoop φ) : ℕ := pcRank l+2*l.quitters

def ownLoop : ReactorLoop.Input φ → Bool
  | .loop => true
  | .pollReturned wakeup => wakeup
  | .quitterWakeup => true
  | _ => false

theorem loop_falls {l : EventLoop φ} (h : Heard l) {i : ReactorLoop.Input φ}
    (hi : ownLoop i = true) :
    (eventLoop.step l i).1 = l ∨ loopRank (eventLoop.step l i).1 < loopRank l := by
  obtain ⟨hq,hs⟩ := h
  cases i with
  | loop =>
    simp only [eventLoop,EventLoop.loopStep.eq_def]
    cases hpc : l.pc with
    | outside => rw [hpc] at hs; exact Bool.noConfusion hs
    | entered => rw [hpc] at hs; exact Bool.noConfusion hs
    | checking => right; simp [loopRank,pcRank,hpc,hq]
    | waiting => exact .inl rfl
    | returned => exact .inl rfl
    | dispatching wakeup =>
      right
      cases wakeup with
      | true =>
        simp only [loopRank,pcRank,hpc]
        split <;> omega
      | false => simp [loopRank,pcRank,hpc]
    | draining =>
      right
      dsimp only
      split
      · next hfd => simp [loopRank,pcRank,hpc,hfd]
      · next hfd => simp [loopRank,pcRank,hpc,hfd]
    | running fs => cases fs <;> right <;> simp [loopRank,pcRank,hpc]
    | _ => right; simp [loopRank,pcRank,hpc]
  | pollReturned wakeup =>
    simp only [eventLoop]
    split
    · next hpc =>
      right
      cases hb : (wakeup && decide (0 < l.eventfd)) <;> simp [loopRank,pcRank,hpc]
    · exact .inl rfl
  | quitterWakeup =>
    simp only [eventLoop]
    split
    · next hpos =>
      right
      have hrank : pcRank { l.wakeup with quitters := l.quitters-1 } ≤ pcRank l+1 := by
        cases hpc : l.pc with
        | draining =>
          simp only [pcRank,EventLoop.wakeup,hpc]
          split_ifs <;> omega
        | dispatching wakeup => cases wakeup <;> simp [pcRank,EventLoop.wakeup,hpc]
        | _ => simp [pcRank,EventLoop.wakeup,hpc]
      change pcRank { l.wakeup with quitters := l.quitters-1 }+2*(l.quitters-1) <
        pcRank l+2*l.quitters
      omega
    · exact .inl rfl
  | _ => exact Bool.noConfusion hi

theorem loop_moves {l : EventLoop φ} (h : Heard l) (hr : hasReturned l.pc = false) :
    ∃ i, ownLoop i = true ∧ (eventLoop.step l i).1 ≠ l := by
  have hpc' : ∀ {l' : EventLoop φ}, l'.pc ≠ l.pc → l' ≠ l := fun hne heq => hne (congrArg _ heq)
  obtain ⟨hq,hs⟩ := h
  cases hpc : l.pc with
  | outside => rw [hpc] at hs; exact Bool.noConfusion hs
  | entered => rw [hpc] at hs; exact Bool.noConfusion hs
  | returned => rw [hpc] at hr; exact Bool.noConfusion hr
  | waiting => exact ⟨.pollReturned true,rfl,hpc' (by simp [eventLoop,hpc])⟩
  | draining =>
    refine ⟨.loop,rfl,?_⟩
    simp only [eventLoop,EventLoop.loopStep,hpc]
    split
    · next hfd =>
      intro heq
      have hzero : 0 = l.eventfd := congrArg EventLoop.eventfd heq
      omega
    · exact hpc' (by simp [hpc])
  | checking => exact ⟨.loop,rfl,hpc' (by simp [eventLoop,EventLoop.loopStep,hpc,hq])⟩
  | dispatching wakeup =>
    refine ⟨.loop,rfl,hpc' ?_⟩
    cases wakeup <;> simp [eventLoop,EventLoop.loopStep,hpc]
  | running fs =>
    refine ⟨.loop,rfl,hpc' ?_⟩
    cases fs <;> simp [eventLoop,EventLoop.loopStep,hpc]
  | _ => exact ⟨.loop,rfl,hpc' (by simp [eventLoop,EventLoop.loopStep,hpc])⟩

def ending : DestructorPc → Bool
  | .joining _ => true
  | .destroyed => true
  | _ => false

inductive Act (s : EventLoopPool φ) : Input φ → EventLoopPool φ → Prop
  | stays (i : Input φ) : Act s i s
  | moves (k : ℕ) (l : EventLoop φ) (j : ReactorLoop.Input φ) (hk : s.loops[k]? = some l) :
      Act s (.loop k j) { s with loops := s.loops.set k (eventLoop.step l j).1 }
  | tells (k : ℕ) (l : EventLoop φ) (j : ReactorLoop.Input φ) (d : DestructorPc)
      (hk : s.loops[k]? = some l) (hd : ending s.destructor = false) (hnew : ending d = false) :
      Act s .destructor { loops := s.loops.set k (eventLoop.step l j).1, destructor := d }
  | advances (d : DestructorPc) (hd : ending s.destructor = false)
      (hnew : ending d = false ∨ d = .joining 0) :
      Act s .destructor { s with destructor := d }
  | joins (k : ℕ) (l : EventLoop φ) (hd : s.destructor = .joining k) (hk : s.loops[k]? = some l)
      (hl : hasReturned l.pc = true) : Act s .destructor { s with destructor := .joining (k+1) }
  | ends (k : ℕ) (hd : s.destructor = .joining k) (hk : s.loops[k]? = none) :
      Act s .destructor { s with destructor := .destroyed }

theorem step_act (s : EventLoopPool φ) (i : Input φ) : Act s i (loopPool.step s i).1 := by
  cases i with
  | loop k j =>
    simp only [loopPool,EventLoopPool.step]
    split
    · exact .stays _
    · next l hk => exact .moves k l j hk
  | destructor =>
    simp only [loopPool,EventLoopPool.destructorStep]
    cases hd : s.destructor with
    | alive => exact .advances _ (by rw [hd]; rfl) (.inl rfl)
    | quitting k =>
      dsimp only
      split
      · next hlt =>
        have hk : s.loops[k]? = some s.loops[k] := List.getElem?_eq_getElem hlt
        rw [EventLoopPool.step,hk]
        exact .tells k _ .quit (.waking k) hk (by rw [hd]; rfl) rfl
      · exact .advances _ (by rw [hd]; rfl) (.inr rfl)
    | waking k =>
      dsimp only
      rw [EventLoopPool.step]
      split
      · exact .advances _ (by rw [hd]; rfl) (.inl rfl)
      · next l hk => exact .tells k l .quitterWakeup (.quitting (k+1)) hk (by rw [hd]; rfl) rfl
    | joining k =>
      dsimp only
      split
      · next hk => exact .ends k hd hk
      · next l hk =>
        split
        · next hl => exact .joins k l hd hk hl
        · exact .stays _
    | destroyed => exact .stays _

theorem act_loops {P : EventLoop φ → Prop} {s t : EventLoopPool φ} {i : Input φ} (ha : Act s i t)
    (hP : ∀ k l j, s.loops[k]? = some l → P l → (i = .loop k j ∨ i = .destructor) →
      P (eventLoop.step l j).1)
    (h : ∀ l ∈ s.loops, P l) : ∀ l ∈ t.loops, P l := by
  have hset : ∀ k l j, s.loops[k]? = some l → (i = .loop k j ∨ i = .destructor) →
      ∀ x ∈ s.loops.set k (eventLoop.step l j).1, P x := by
    intro k l j hk hi x hx
    rcases List.mem_or_eq_of_mem_set hx with hx | rfl
    · exact h x hx
    · exact hP k l j hk (h l (List.mem_of_getElem? hk)) hi
  cases ha with
  | moves k l j hk => exact hset k l j hk (.inl rfl)
  | tells k l j d hk hd hnew => exact hset k l j hk (.inr rfl)
  | _ => exact h

theorem run_sound (threadCount : ℕ) (is : List (Input φ)) :
    ∀ l ∈ (loopPool.run (start threadCount) is).1.loops, Sound l := by
  refine run_invariant loopPool (fun s _ => ∀ l ∈ s.loops, Sound l) ?_ _ is ?_
  · intro s _ i h
    exact act_loops (step_act s i) (fun k l j _ hl _ => turn_sound (ReactorLoop.step_turn l j) hl) h
  · intro l hl
    rw [start,List.mem_replicate] at hl
    rw [hl.2]
    exact ⟨by simp,fun hheard => Bool.noConfusion hheard.1⟩

theorem turn_returned {l : EventLoop φ} {i : ReactorLoop.Input φ}
    {r : EventLoop φ × List (ReactorLoop.Output φ)} (ht : Turn l i r)
    (h : hasReturned l.pc = true) : hasReturned r.1.pc = true := by
  cases ht with
  | stays i => exact h
  | queues f hpc hl => exact h
  | queuesOutside f hpc hl => exact h
  | quitsInLoop hpc => exact h
  | pushes f => exact h
  | pusherWakes hp => exact h
  | quits => exact h
  | quitterWakes => exact h
  | returns hpc => rfl
  | enters hpc => rw [hpc] at h; exact Bool.noConfusion h
  | clears hpc => rw [hpc] at h; exact Bool.noConfusion h
  | checks hpc => rw [hpc] at h; exact Bool.noConfusion h
  | polls hpc => rw [hpc] at h; exact Bool.noConfusion h
  | pollReturns wakeup hpc => rw [hpc] at h; exact Bool.noConfusion h
  | handles hpc => rw [hpc] at h; exact Bool.noConfusion h
  | drains hpc => rw [hpc] at h; exact Bool.noConfusion h
  | drained hpc => rw [hpc] at h; exact Bool.noConfusion h
  | swaps hpc => rw [hpc] at h; exact Bool.noConfusion h
  | runs f fs hpc => rw [hpc] at h; exact Bool.noConfusion h
  | repeats hpc => rw [hpc] at h; exact Bool.noConfusion h

def Joined (s : EventLoopPool φ) : Prop :=
  (∀ k, s.destructor = .joining k → ∀ j < k, ∀ l, s.loops[j]? = some l → hasReturned l.pc = true) ∧
  (s.destructor = .destroyed → ∀ l ∈ s.loops, hasReturned l.pc = true)

theorem act_joined {s t : EventLoopPool φ} {i : Input φ} (ha : Act s i t) (h : Joined s) :
    Joined t := by
  obtain ⟨hjoin,hend⟩ := h
  cases ha with
  | stays i => exact ⟨hjoin,hend⟩
  | moves k l j hk =>
    have hstep := turn_returned (ReactorLoop.step_turn l j)
    refine ⟨fun n hn m hm x hx => ?_,fun hd x hx => ?_⟩
    · by_cases hmk : k = m
      · subst hmk
        rw [List.getElem?_set_self (List.getElem?_eq_some_iff.mp hk).1] at hx
        rw [← Option.some.inj hx]
        exact hstep (hjoin n hn k hm l hk)
      · rw [List.getElem?_set_ne hmk] at hx
        exact hjoin n hn m hm x hx
    · rcases List.mem_or_eq_of_mem_set hx with hx | rfl
      · exact hend hd x hx
      · exact hstep (hend hd l (List.mem_of_getElem? hk))
  | tells k l j d hk hd hnew =>
    refine ⟨fun n hn => ?_,fun hd' => ?_⟩
    · rw [show d = .joining n from hn] at hnew
      exact Bool.noConfusion hnew
    · rw [show d = .destroyed from hd'] at hnew
      exact Bool.noConfusion hnew
  | advances d hd hnew =>
    refine ⟨fun n hn m hm => ?_,fun hd' => ?_⟩
    · rw [show d = .joining n from hn] at hnew
      rcases hnew with hnew | hnew
      · exact Bool.noConfusion hnew
      · obtain rfl := DestructorPc.joining.inj hnew
        exact absurd hm (Nat.not_lt_zero m)
    · rw [show d = .destroyed from hd'] at hnew
      rcases hnew with hnew | hnew
      · exact Bool.noConfusion hnew
      · exact DestructorPc.noConfusion hnew
  | joins k l hd hk hl =>
    refine ⟨fun n hn m hm x hx => ?_,fun hd' => DestructorPc.noConfusion hd'⟩
    obtain rfl := DestructorPc.joining.inj hn
    rcases Nat.lt_succ_iff_lt_or_eq.mp hm with hlt | rfl
    · exact hjoin k hd m hlt x hx
    · rw [← Option.some.inj (hk.symm.trans hx)]
      exact hl
  | ends k hd hk =>
    refine ⟨fun n hn => DestructorPc.noConfusion hn,fun _ x hx => ?_⟩
    obtain ⟨m,hm⟩ := List.mem_iff_getElem?.mp hx
    have hlt : m < s.loops.length := (List.getElem?_eq_some_iff.mp hm).1
    rw [List.getElem?_eq_none_iff] at hk
    exact hjoin k hd m (by omega) x hm

theorem run_joined (threadCount : ℕ) (is : List (Input φ)) :
    Joined (loopPool.run (start threadCount) is).1 :=
  run_invariant loopPool (fun s _ => Joined s) (fun s _ i h => act_joined (step_act s i) h) _ is
    ⟨fun _ hk => DestructorPc.noConfusion hk,fun hd => DestructorPc.noConfusion hd⟩

def quitless : Input φ → Bool
  | .loop _ j => !quits j
  | .destructor => true

theorem act_deaf {s t : EventLoopPool φ} {i : Input φ} (ha : Act s i t)
    (hi : quitless i = true) (h : ending s.destructor = true ∧ ∃ l ∈ s.loops, Deaf l) :
    ending t.destructor = true ∧ ∃ l ∈ t.loops, Deaf l := by
  obtain ⟨hd,x,hx,hdeaf⟩ := h
  cases ha with
  | stays i => exact ⟨hd,x,hx,hdeaf⟩
  | moves k l j hk =>
    refine ⟨hd,?_⟩
    have hj : quits j = false := by simpa [quitless] using hi
    obtain ⟨m,hm⟩ := List.mem_iff_getElem?.mp hx
    by_cases hmk : k = m
    · subst hmk
      obtain rfl := Option.some.inj (hk.symm.trans hm)
      refine ⟨(eventLoop.step l j).1,List.mem_of_getElem? (i := k) ?_,
        turn_deaf (ReactorLoop.step_turn l j) hj hdeaf⟩
      exact List.getElem?_set_self (List.getElem?_eq_some_iff.mp hk).1
    · exact ⟨x,List.mem_of_getElem? (i := m) (by rw [List.getElem?_set_ne hmk,hm]),hdeaf⟩
  | tells k l j d hk hd' hnew => exact absurd (hd'.symm.trans hd) Bool.false_ne_true
  | advances d hd' hnew => exact absurd (hd'.symm.trans hd) Bool.false_ne_true
  | joins k l hd' hk hl => exact ⟨rfl,x,hx,hdeaf⟩
  | ends k hd' hk => exact ⟨rfl,x,hx,hdeaf⟩

def loopsRank : List (EventLoop φ) → ℕ
  | [] => 0
  | l::ls => loopRank l+loopsRank ls

def destructorRank (loops : ℕ) : DestructorPc → ℕ
  | .joining k => loops-k+1
  | _ => 0

def poolRank (s : EventLoopPool φ) : ℕ :=
  loopsRank s.loops+destructorRank s.loops.length s.destructor

theorem loopsRank_set {ls : List (EventLoop φ)} {k : ℕ} {l : EventLoop φ} (hk : ls[k]? = some l)
    (x : EventLoop φ) : loopsRank (ls.set k x)+loopRank l = loopsRank ls+loopRank x := by
  induction ls generalizing k with
  | nil => exact absurd hk.symm (Option.some_ne_none l)
  | cons y ls ih =>
    cases k with
    | zero =>
      obtain rfl := Option.some.inj hk
      simp only [List.set_cons_zero,loopsRank]
      omega
    | succ k =>
      have hrest := ih (k := k) hk
      simp only [List.set_cons_succ,loopsRank]
      omega

def ownInput : Input φ → Bool
  | .loop _ j => ownLoop j
  | .destructor => true

/-- Every loop will see the flag, and only joining is left. -/
def Leaving (s : EventLoopPool φ) : Prop :=
  ending s.destructor = true ∧ ∀ l ∈ s.loops, Heard l

theorem pool_ranked :
    Ranked loopPool (fun i : Input φ => ownInput i = true) Leaving poolRank where
  keeps s i h hi := by
    have ha := step_act s i
    refine ⟨?_,act_loops ha (fun k l j _ hl _ => (turn_heard (ReactorLoop.step_turn l j) hl).1) h.2⟩
    have hd := h.1
    generalize (loopPool.step s i).1 = t at ha ⊢
    cases ha with
    | stays i => exact hd
    | moves k l j hk => exact hd
    | tells k l j d hk hd' hnew => exact absurd (hd'.symm.trans hd) Bool.false_ne_true
    | advances d hd' hnew => exact absurd (hd'.symm.trans hd) Bool.false_ne_true
    | joins k l hd' hk hl => rfl
    | ends k hd' hk => rfl
  falls s i h hi := by
    have ha := step_act s i
    have hd := h.1
    generalize (loopPool.step s i).1 = t at ha ⊢
    cases ha with
    | stays i => exact .inl rfl
    | moves k l j hk =>
      rcases loop_falls (h.2 l (List.mem_of_getElem? hk)) hi with hsame | hlt
      · left
        obtain ⟨hlt,rfl⟩ := List.getElem?_eq_some_iff.mp hk
        rw [hsame,List.set_getElem_self]
      · right
        have hsum := loopsRank_set hk (eventLoop.step l j).1
        simp only [poolRank,List.length_set]
        omega
    | tells k l j d hk hd' hnew => exact absurd (hd'.symm.trans hd) Bool.false_ne_true
    | advances d hd' hnew => exact absurd (hd'.symm.trans hd) Bool.false_ne_true
    | joins k l hd' hk hl =>
      right
      have hlt := (List.getElem?_eq_some_iff.mp hk).1
      simp only [poolRank,hd',destructorRank]
      omega
    | ends k hd' hk =>
      right
      simp only [poolRank,hd',destructorRank]
      omega

theorem settled_destroyed {s : EventLoopPool φ} (h : Leaving s)
    (hset : Settled loopPool (fun i : Input φ => ownInput i = true) s) :
    s.destructor = .destroyed := by
  have hall : ∀ (k : ℕ) (l : EventLoop φ), s.loops[k]? = some l → hasReturned l.pc = true := by
    intro k l hk
    by_contra hno
    obtain ⟨i,hi,hne⟩ := loop_moves (h.2 l (List.mem_of_getElem? hk)) (by simpa using hno)
    have hstep := congrArg EventLoopPool.loops (hset (.loop k i) hi)
    simp only [loopPool,EventLoopPool.step,hk] at hstep
    have hget := List.getElem?_set_self (a := (eventLoop.step l i).1)
      (List.getElem?_eq_some_iff.mp hk).1
    rw [hstep,hk] at hget
    exact hne (Option.some.inj hget).symm
  cases hd : s.destructor with
  | destroyed => rfl
  | joining k =>
    exfalso
    have hstep := congrArg EventLoopPool.destructor (hset .destructor rfl)
    simp only [loopPool,EventLoopPool.destructorStep,hd] at hstep
    cases hk : s.loops[k]? with
    | none => simp [hk] at hstep
    | some l => simp [hk,hall k l hk] at hstep
  | alive => have hend := h.1; rw [hd] at hend; exact Bool.noConfusion hend
  | quitting k => have hend := h.1; rw [hd] at hend; exact Bool.noConfusion hend
  | waking k => have hend := h.1; rw [hd] at hend; exact Bool.noConfusion hend

/-- Once the destructor has called `quit()` on every loop, it can return,
unless somebody else calls `quit()`, exactly if each thread was past the
stores at the head of `loop()`. It then returns whatever the order of the
steps of the threads, of which no more than `poolRank` do anything; no thread
stays in a poll that nothing ends. -/
theorem destructor_returns_iff (threadCount : ℕ) (is : List (Input φ))
    (hend : ending (loopPool.run (start threadCount) is).1.destructor = true) :
    let s := (loopPool.run (start threadCount : EventLoopPool φ) is).1
    ((∃ js, (∀ j ∈ js, quitless j = true) ∧ (loopPool.run s js).1.destructor = .destroyed) ↔
      ∀ l ∈ s.loops, Heard l) ∧
    ((∀ l ∈ s.loops, Heard l) →
      (∀ l ∈ s.loops, l.pc = .waiting → 0 < l.eventfd ∨ 0 < l.quitters) ∧
      ∀ js, (∀ j ∈ js, ownInput j = true) →
        (∃ ks, ks.Sublist js ∧
          Along loopPool (Effective loopPool fun i => ownInput i = true) s ks ∧
          (loopPool.run s ks).1 = (loopPool.run s js).1 ∧ ks.length ≤ poolRank s) ∧
        (Settled loopPool (fun i : Input φ => ownInput i = true) (loopPool.run s js).1 →
          (loopPool.run s js).1.destructor = .destroyed)) := by
  intro s
  have hsound := run_sound threadCount is
  have hjoined := run_joined threadCount is
  refine ⟨⟨?_,?_⟩,?_⟩
  · rintro ⟨js,hquitless,hdone⟩ l hl
    by_contra hno
    have hrun := run_invariant_along loopPool (fun _ i => quitless i = true)
      (fun t _ => Joined t ∧ ending t.destructor = true ∧ ∃ l ∈ t.loops, Deaf l)
      (fun t _ i h hi => ⟨act_joined (step_act t i) h.1,act_deaf (step_act t i) hi h.2⟩) s [] js
      ⟨hjoined,hend,l,hl,deaf_of_not_heard (hsound l hl) hno⟩
      (along_of_forall loopPool (fun i => quitless i = true) s js hquitless)
    obtain ⟨hall,-,x,hx,hdeaf⟩ := hrun
    exact Bool.noConfusion ((deaf_not_returned hdeaf).symm.trans (hall.2 hdone x hx))
  · intro hheard
    obtain ⟨js,hown,hset⟩ := exists_settled pool_ranked (s := s) ⟨hend,hheard⟩
    refine ⟨js,fun j hj => ?_,settled_destroyed (run_ranked pool_ranked ⟨hend,hheard⟩ hown) hset⟩
    have howns := hown j hj
    cases j with
    | destructor => rfl
    | loop k i =>
      cases i with
      | loop => rfl
      | pollReturned wakeup => rfl
      | quitterWakeup => rfl
      | _ => exact Bool.noConfusion howns
  · intro hheard
    refine ⟨fun l hl hpc => (hsound l hl).woken (hheard l hl) (.inr hpc),fun js hown => ?_⟩
    refine ⟨own_run_bounded pool_ranked ⟨hend,hheard⟩ hown,fun hset => ?_⟩
    exact settled_destroyed (run_ranked pool_ranked ⟨hend,hheard⟩ hown) hset

def lateThread : List (Input ℕ) :=
  [.loop 0 .loop,.loop 0 .loop,.loop 0 .loop,.loop 0 .loop,.destructor,.destructor,.destructor,
    .destructor,.destructor,.destructor]

theorem late_thread_never_joined :
    ending (loopPool.run (start 2) lateThread).1.destructor = true ∧
    ¬ ∃ js, (∀ j ∈ js, quitless j = true) ∧
      (loopPool.run (loopPool.run (start 2) lateThread).1 js).1.destructor = .destroyed := by
  have hend : ending (loopPool.run (start 2) lateThread).1.destructor = true := by decide
  refine ⟨hend,fun hreturns => ?_⟩
  have hheard := (destructor_returns_iff 2 lateThread hend).1.mp hreturns
  have hmem : ({ quit := true, eventfd := 1 } : EventLoop ℕ) ∈
      (loopPool.run (start 2) lateThread).1.loops := by
    exact List.mem_of_getElem? (i := 1) rfl
  exact Bool.noConfusion (hheard _ hmem).2

end MiniRpc.LoopPool
