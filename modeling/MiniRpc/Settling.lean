import MiniRpc.StepMachine

/-!
# Runs that come to rest

Some inputs of a machine are steps of its own parts, the others come from
outside. A rank that every own step makes smaller, unless it leaves the state
as it is, bounds the number of own steps that do anything, in whatever order
they are taken; left to itself the machine settles.
-/

set_option autoImplicit false

namespace MiniRpc.Settling
open MiniRpc.StepMachine

variable {σ ι ο : Type*} (m : Machine σ ι ο) (Own : ι → Prop)

def Effective (s : σ) (i : ι) : Prop := Own i ∧ (m.step s i).1 ≠ s

def Settled (s : σ) : Prop := ∀ i, Own i → (m.step s i).1 = s

/-- The own steps keep `Inv`, and make `rank` smaller where they do anything. -/
structure Ranked (Inv : σ → Prop) (rank : σ → ℕ) : Prop where
  keeps : ∀ s i, Inv s → Own i → Inv (m.step s i).1
  falls : ∀ s i, Inv s → Own i → (m.step s i).1 = s ∨ rank (m.step s i).1 < rank s

variable {m Own} {Inv : σ → Prop} {rank : σ → ℕ}

theorem run_ranked (h : Ranked m Own Inv rank) {s : σ} {is : List ι} (hs : Inv s)
    (hown : ∀ i ∈ is, Own i) : Inv (m.run s is).1 := by
  induction is generalizing s with
  | nil => exact hs
  | cons i is ih =>
    exact ih (h.keeps s i hs (hown i List.mem_cons_self))
      fun j hj => hown j (List.mem_cons_of_mem i hj)

theorem effective_length (h : Ranked m Own Inv rank) {s : σ} {is : List ι} (hs : Inv s)
    (he : Along m (Effective m Own) s is) : is.length+rank (m.run s is).1 ≤ rank s := by
  induction is generalizing s with
  | nil => exact Nat.le_of_eq (Nat.zero_add _)
  | cons i is ih =>
    obtain ⟨⟨hown,hne⟩,hrest⟩ := he
    have hlt := (h.falls s i hs hown).resolve_left hne
    have hle := ih (h.keeps s i hs hown) hrest
    rw [List.length_cons,Machine.run]
    dsimp only at hle ⊢
    omega

theorem effective_part {s : σ} {is : List ι} (hown : ∀ i ∈ is, Own i) :
    ∃ js, js.Sublist is ∧ Along m (Effective m Own) s js ∧ (m.run s js).1 = (m.run s is).1 := by
  induction is generalizing s with
  | nil => exact ⟨[],List.Sublist.refl _,trivial,rfl⟩
  | cons i is ih =>
    obtain ⟨js,hsub,heff,hrun⟩ := ih (s := (m.step s i).1) fun j hj => hown j (List.mem_cons_of_mem i hj)
    by_cases hsame : (m.step s i).1 = s
    · rw [hsame] at heff hrun
      refine ⟨js,hsub.cons i,heff,hrun.trans ?_⟩
      rw [Machine.run,hsame]
    · exact ⟨i::js,hsub.cons_cons i,⟨⟨hown i List.mem_cons_self,hsame⟩,heff⟩,hrun⟩

theorem own_run_bounded (h : Ranked m Own Inv rank) {s : σ} {is : List ι} (hs : Inv s)
    (hown : ∀ i ∈ is, Own i) :
    ∃ js, js.Sublist is ∧ Along m (Effective m Own) s js ∧ (m.run s js).1 = (m.run s is).1 ∧
      js.length ≤ rank s := by
  obtain ⟨js,hsub,heff,hrun⟩ := effective_part (m := m) (s := s) hown
  have hlen := effective_length h hs heff
  exact ⟨js,hsub,heff,hrun,by omega⟩

/-- The machine can be left to settle from wherever it is. -/
theorem exists_settled (h : Ranked m Own Inv rank) {s : σ} (hs : Inv s) :
    ∃ is, (∀ i ∈ is, Own i) ∧ Settled m Own (m.run s is).1 := by
  induction hn : rank s using Nat.strongRecOn generalizing s with
  | ind n ih =>
    by_cases hset : Settled m Own s
    · exact ⟨[],by simp,hset⟩
    · obtain ⟨i,hown,hne⟩ : ∃ i, Own i ∧ (m.step s i).1 ≠ s := by
        simpa only [Settled,not_forall,exists_prop] using hset
      have hlt := (h.falls s i hs hown).resolve_left hne
      obtain ⟨is,hall,hend⟩ := ih _ (hn ▸ hlt) (h.keeps s i hs hown) rfl
      refine ⟨i::is,?_,hend⟩
      intro j hj
      rcases List.mem_cons.mp hj with rfl | hj
      · exact hown
      · exact hall j hj

end MiniRpc.Settling
