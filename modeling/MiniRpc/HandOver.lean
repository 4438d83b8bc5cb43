import MiniRpc.StepMachine
import Mathlib.Data.List.Perm.Basic

/-!
# Items handed over in batches

Producers put items into a store. A consumer takes everything that waits
there as a batch of its own and works it off item by item; several batches
may be at work together. A consumer that stops drops the rest of its batch.
Every item that was put is done, dropped, in a batch or waiting.
-/

set_option autoImplicit false

namespace MiniRpc.HandOver
open MiniRpc.StepMachine

variable {α : Type*}

structure Store (α : Type*) where
  waiting : List α := []
  batches : List (List α) := []

inductive Op (α : Type*) where
  | put (a : α)
  | take
  | next (n : ℕ) (stop : Bool)

inductive Event (α : Type*) where
  | put (a : α)
  | done (a : α)
  | dropped (as : List α)

def Store.take (s : Store α) : Store α := ⟨[],s.batches++[s.waiting]⟩

def Store.next (s : Store α) (n : ℕ) (stop : Bool) : Store α × List (Event α) :=
  match s.batches[n]? with
  | some (a::as) =>
    ({ s with batches := s.batches.set n (if stop then [] else as) },
      .done a::if stop then [.dropped as] else [])
  | _ => (s,[])

def handOver : Machine (Store α) (Op α) (Event α) where
  step s o :=
    match o with
    | .put a => ({ s with waiting := s.waiting++[a] },[.put a])
    | .take => (s.take,[])
    | .next n stop => s.next n stop

def putOf (es : List (Event α)) : List α :=
  es.filterMap fun
    | .put a => some a
    | _ => none

def doneOf (es : List (Event α)) : List α :=
  es.filterMap fun
    | .done a => some a
    | _ => none

def droppedOf (es : List (Event α)) : List α :=
  es.flatMap fun
    | .dropped as => as
    | _ => []

@[simp] theorem putOf_append (es es' : List (Event α)) : putOf (es++es') = putOf es++putOf es' :=
  List.filterMap_append

@[simp] theorem doneOf_append (es es' : List (Event α)) : doneOf (es++es') = doneOf es++doneOf es' :=
  List.filterMap_append

@[simp] theorem droppedOf_append (es es' : List (Event α)) :
    droppedOf (es++es') = droppedOf es++droppedOf es' := List.flatMap_append

/-- The items that have been taken account of. -/
def Store.settled (s : Store α) (es : List (Event α)) : List α :=
  doneOf es++(droppedOf es++(s.waiting++s.batches.flatten))

theorem flatten_set {xss : List (List α)} {n : ℕ} {xs : List α} (h : xss[n]? = some xs) :
    xss.flatten.Perm (xs++(xss.eraseIdx n).flatten) ∧
    ∀ ys, (xss.set n ys).flatten.Perm (ys++(xss.eraseIdx n).flatten) := by
  obtain ⟨hn,rfl⟩ := List.getElem?_eq_some_iff.mp h
  exact ⟨(List.getElem_cons_eraseIdx_perm hn).symm.flatten,
    fun ys => (List.set_perm_cons_eraseIdx hn ys).flatten⟩

theorem next_settled (s : Store α) (es : List (Event α)) (n : ℕ) (stop : Bool) :
    ((s.next n stop).1.settled (es++(s.next n stop).2)).Perm (s.settled es) := by
  classical
  rw [Store.next.eq_def]
  split
  case h_1 a as hn =>
    obtain ⟨hbefore,hafter⟩ := flatten_set hn
    rw [List.perm_iff_count]
    intro x
    have hold := hbefore.count_eq x
    cases stop with
    | false =>
      have hnew := (hafter as).count_eq x
      simp only [Store.settled,doneOf_append,droppedOf_append,List.count_append,List.cons_append,
        List.count_cons,Bool.false_eq_true,if_false] at hold hnew ⊢
      simp only [doneOf,droppedOf,List.filterMap_cons,List.filterMap_nil,List.flatMap_cons,
        List.flatMap_nil,List.append_nil,List.count_cons,List.count_nil]
      omega
    | true =>
      have hnew := (hafter []).count_eq x
      simp only [Store.settled,doneOf_append,droppedOf_append,List.count_append,List.cons_append,
        List.count_cons,List.count_nil,if_true] at hold hnew ⊢
      simp only [doneOf,droppedOf,List.filterMap_cons,List.filterMap_nil,List.flatMap_cons,
        List.flatMap_nil,List.append_nil,List.nil_append,List.count_cons,List.count_nil]
      omega
  case h_2 => rw [List.append_nil]

theorem put_settled (s : Store α) (es : List (Event α)) (a : α) :
    (s.settled es++[a]).Perm ((handOver.step s (.put a)).1.settled (es++[.put a])) := by
  classical
  have hdone : doneOf [.put a] = [] := rfl
  have hdropped : droppedOf [.put a] = [] := rfl
  rw [List.perm_iff_count]
  intro x
  simp only [Store.settled,handOver,doneOf_append,droppedOf_append,hdone,hdropped,List.append_nil,
    List.count_append]
  omega

theorem take_settled (s : Store α) (es : List (Event α)) : (s.take.settled es).Perm (s.settled es) := by
  rw [Store.settled,Store.take,List.flatten_append,List.flatten_singleton,List.nil_append]
  exact (List.perm_append_comm.append_left _).append_left _

theorem next_putOf (s : Store α) (n : ℕ) (stop : Bool) : putOf (s.next n stop).2 = [] := by
  rw [Store.next.eq_def]
  split
  · cases stop <;> rfl
  · rfl

theorem step_conserves (s : Store α) (es : List (Event α)) (o : Op α)
    (h : (putOf es).Perm (s.settled es)) :
    (putOf (es++(handOver.step s o).2)).Perm
      ((handOver.step s o).1.settled (es++(handOver.step s o).2)) := by
  cases o with
  | put a =>
    rw [putOf_append]
    exact (h.append_right [a]).trans (put_settled s es a)
  | take =>
    rw [show (handOver.step s .take).2 = [] from rfl,List.append_nil]
    exact h.trans (take_settled s es).symm
  | next n stop =>
    rw [putOf_append,show putOf (handOver.step s (.next n stop)).2 = [] from next_putOf s n stop,
      List.append_nil]
    exact h.trans (next_settled s es n stop).symm

theorem run_conserves (os : List (Op α)) :
    (putOf (handOver.run {} os).2).Perm
      ((handOver.run {} os).1.settled (handOver.run {} os).2) :=
  run_invariant handOver (fun s es => (putOf es).Perm (s.settled es)) step_conserves {} os
    (List.Perm.refl _)

/-- A consumer stops with items of its batch left. -/
def drops (s : Store α) : Op α → Bool
  | .next n true =>
    match s.batches[n]? with
    | some (_::_::_) => true
    | _ => false
  | _ => false

theorem step_drops (s : Store α) (o : Op α) :
    droppedOf (handOver.step s o).2 = [] ↔ drops s o = false := by
  cases o with
  | put a => exact ⟨fun _ => rfl,fun _ => rfl⟩
  | take => exact ⟨fun _ => rfl,fun _ => rfl⟩
  | next n stop =>
    rw [show (handOver.step s (.next n stop)).2 = (s.next n stop).2 from rfl,Store.next.eq_def,
      drops.eq_def]
    cases stop with
    | false => split <;> exact ⟨fun _ => rfl,fun _ => rfl⟩
    | true =>
      dsimp only
      rcases hn : s.batches[n]? with _ | _ | ⟨a,_ | ⟨b,as⟩⟩
      · exact ⟨fun _ => rfl,fun _ => rfl⟩
      · exact ⟨fun _ => rfl,fun _ => rfl⟩
      · exact ⟨fun _ => rfl,fun _ => rfl⟩
      · exact ⟨fun h => (List.cons_ne_nil _ _ h).elim,fun h => Bool.noConfusion h⟩

theorem run_drops (s : Store α) (os : List (Op α)) :
    droppedOf (handOver.run s os).2 = [] ↔ Along handOver (fun s o => drops s o = false) s os := by
  induction os generalizing s with
  | nil => exact ⟨fun _ => trivial,fun _ => rfl⟩
  | cons o os ih =>
    rw [Machine.run,droppedOf_append,List.append_eq_nil_iff,ih,step_drops]
    exact Iff.rfl

/-- When nothing waits and every batch is finished, the items done are those
put, each as often, exactly if no consumer has stopped early. -/
theorem all_done_iff (os : List (Op α)) (hwaiting : (handOver.run {} os).1.waiting = [])
    (hbatches : ∀ batch ∈ (handOver.run {} os).1.batches, batch = []) :
    (doneOf (handOver.run {} os).2).Perm (putOf (handOver.run {} os).2) ↔
      Along handOver (fun s o => drops s o = false) {} os := by
  have h := run_conserves os
  rw [Store.settled,hwaiting,List.flatten_eq_nil_iff.mpr hbatches,List.append_nil,
    List.append_nil] at h
  rw [← run_drops]
  constructor
  · intro hdone
    have hlength := (hdone.trans h).length_eq
    rw [List.length_append] at hlength
    exact List.length_eq_zero_iff.mp (by omega)
  · intro hnone
    rw [hnone,List.append_nil] at h
    exact h.symm

def itemsOf (os : List (Op α)) : List α :=
  os.filterMap fun
    | .put a => some a
    | _ => none

theorem run_putOf (s : Store α) (os : List (Op α)) : putOf (handOver.run s os).2 = itemsOf os := by
  induction os generalizing s with
  | nil => rfl
  | cons o os ih =>
    rw [Machine.run,putOf_append,ih]
    cases o with
    | put a => rfl
    | take => rfl
    | next n stop =>
      rw [show putOf (handOver.step s (.next n stop)).2 = [] from next_putOf s n stop]
      rfl

end MiniRpc.HandOver
