import Mathlib.Data.List.Basic

/-!
# Runs of machines driven by their environment

A machine consumes one input at a time, moves to a new state and emits
outputs. A run is a list of inputs; its outputs in order are its history.
Conditions on steps and properties of reached states are stated along the
run, and the invariant rules below carry every induction over runs. A
property of the order of events is a monitor, which reads the history one
output at a time, or says of every event what came before it.
-/

set_option autoImplicit false

namespace MiniRpc.StepMachine

variable {σ ι ο : Type*}

structure Machine (σ ι ο : Type*) where
  step : σ → ι → σ × List ο

variable (m : Machine σ ι ο)

def Machine.run : σ → List ι → σ × List ο
  | s, [] => (s,[])
  | s, i::is => ((run (m.step s i).1 is).1,(m.step s i).2++(run (m.step s i).1 is).2)

theorem run_append (s : σ) (is js : List ι) :
    m.run s (is++js) = ((m.run (m.run s is).1 js).1,(m.run s is).2++(m.run (m.run s is).1 js).2) := by
  induction is generalizing s with
  | nil => rfl
  | cons i is ih => simp only [List.cons_append,Machine.run,ih,List.append_assoc]

/-- Every step of the run meets `C`. -/
def Along (C : σ → ι → Prop) : σ → List ι → Prop
  | _, [] => True
  | s, i::is => C s i ∧ Along C (m.step s i).1 is

/-- Every state reached by the run, with the history so far, satisfies `Q`. -/
def Always (Q : σ → List ο → Prop) : σ → List ο → List ι → Prop
  | s, os, [] => Q s os
  | s, os, i::is => Q s os ∧ Always Q (m.step s i).1 (os++(m.step s i).2) is

theorem run_invariant_along (C : σ → ι → Prop) (Inv : σ → List ο → Prop)
    (hstep : ∀ s os i, Inv s os → C s i → Inv (m.step s i).1 (os++(m.step s i).2))
    (s : σ) (os : List ο) (is : List ι) (hs : Inv s os) (hc : Along m C s is) :
    Inv (m.run s is).1 (os++(m.run s is).2) := by
  induction is generalizing s os with
  | nil => simpa [Machine.run] using hs
  | cons i is ih =>
    have h := ih _ _ (hstep s os i hs hc.1) hc.2
    simpa only [Machine.run,List.append_assoc] using h

theorem along_of_forall (P : ι → Prop) (s : σ) (is : List ι) (h : ∀ i ∈ is, P i) :
    Along m (fun _ i => P i) s is := by
  induction is generalizing s with
  | nil => trivial
  | cons i is ih =>
    exact ⟨h i List.mem_cons_self,ih _ fun j hj => h j (List.mem_cons_of_mem i hj)⟩

theorem along_true (s : σ) (is : List ι) : Along m (fun _ _ => True) s is :=
  along_of_forall m (fun _ => True) s is fun _ _ => trivial

instance decidableAlong (C : σ → ι → Prop) [∀ s i, Decidable (C s i)] :
    ∀ (s : σ) (is : List ι), Decidable (Along m C s is)
  | _, [] => inferInstanceAs (Decidable True)
  | s, i::is =>
    have := decidableAlong C (m.step s i).1 is
    inferInstanceAs (Decidable (C s i ∧ Along m C (m.step s i).1 is))

theorem along_append (C : σ → ι → Prop) (s : σ) (is js : List ι) :
    Along m C s (is++js) ↔ Along m C s is ∧ Along m C (m.run s is).1 js := by
  induction is generalizing s with
  | nil => exact ⟨fun h => ⟨trivial,h⟩,fun h => h.2⟩
  | cons i is ih =>
    constructor
    · intro h
      obtain ⟨h1,h2⟩ := (ih _).mp h.2
      exact ⟨⟨h.1,h1⟩,h2⟩
    · intro h
      exact ⟨h.1.1,(ih _).mpr ⟨h.1.2,h.2⟩⟩

theorem along_of_along (C D : σ → ι → Prop) (Inv : σ → Prop) (hd : ∀ s i, Inv s → C s i → D s i)
    (hstep : ∀ s i, Inv s → C s i → Inv (m.step s i).1) (s : σ) (is : List ι) (hs : Inv s)
    (hc : Along m C s is) : Along m D s is := by
  induction is generalizing s with
  | nil => trivial
  | cons i is ih => exact ⟨hd s i hs hc.1,ih _ (hstep s i hs hc.1) hc.2⟩

theorem not_along_split (C : σ → ι → Prop) (s : σ) (is : List ι) (h : ¬ Along m C s is) :
    ∃ before i after, is = before++i::after ∧ Along m C s before ∧ ¬ C (m.run s before).1 i := by
  induction is generalizing s with
  | nil => exact absurd trivial h
  | cons i is ih =>
    by_cases hc : C s i
    · have hrest : ¬ Along m C (m.step s i).1 is := fun hr => h ⟨hc,hr⟩
      obtain ⟨before,j,after,rfl,ha,hj⟩ := ih _ hrest
      exact ⟨i::before,j,after,rfl,⟨hc,ha⟩,hj⟩
    · exact ⟨[],i,is,rfl,trivial,hc⟩

theorem run_invariant (Inv : σ → List ο → Prop)
    (hstep : ∀ s os i, Inv s os → Inv (m.step s i).1 (os++(m.step s i).2))
    (s : σ) (is : List ι) (hs : Inv s []) : Inv (m.run s is).1 (m.run s is).2 :=
  run_invariant_along m (fun _ _ => True) Inv (fun s os i h _ => hstep s os i h) s [] is hs
    (along_true m s is)

theorem always_head (Q : σ → List ο → Prop) {s : σ} {os : List ο} {is : List ι}
    (h : Always m Q s os is) : Q s os := by
  cases is with
  | nil => exact h
  | cons i is => exact h.1

theorem always_last (Q : σ → List ο → Prop) {s : σ} {os : List ο} {is : List ι}
    (h : Always m Q s os is) : Q (m.run s is).1 (os++(m.run s is).2) := by
  induction is generalizing s os with
  | nil => simpa [Machine.run,Always] using h
  | cons i is ih => simpa only [Machine.run,List.append_assoc] using ih h.2

theorem always_of_along (C : σ → ι → Prop) (Inv Q : σ → List ο → Prop)
    (hq : ∀ s os, Inv s os → Q s os)
    (hstep : ∀ s os i, Inv s os → C s i → Inv (m.step s i).1 (os++(m.step s i).2))
    (s : σ) (os : List ο) (is : List ι) (hs : Inv s os) (hc : Along m C s is) :
    Always m Q s os is := by
  induction is generalizing s os with
  | nil => exact hq s os hs
  | cons i is ih => exact ⟨hq s os hs,ih _ _ (hstep s os i hs hc.1) hc.2⟩

/-- Where, in the presence of an invariant, one step keeps `Q` exactly when
it meets `C`, a run keeps `Q` throughout exactly when all its steps do. The
runs may be restricted to steps that `Allowed` admits. -/
theorem always_iff_along_of (Allowed C : σ → ι → Prop) (Aux Q : σ → List ο → Prop)
    (haux : ∀ s os i, Allowed s i → Aux s os → Aux (m.step s i).1 (os++(m.step s i).2))
    (hstep : ∀ s os i, Allowed s i → Aux s os → Q s os →
      (Q (m.step s i).1 (os++(m.step s i).2) ↔ C s i))
    (s : σ) (os : List ο) (is : List ι) (hi : Along m Allowed s is) (ha : Aux s os) (hq : Q s os) :
    Always m Q s os is ↔ Along m C s is := by
  induction is generalizing s os with
  | nil => exact ⟨fun _ => trivial,fun _ => hq⟩
  | cons i is ih =>
    obtain ⟨hfirst,hrest⟩ := hi
    have ha' := haux s os i hfirst ha
    constructor
    · intro h
      have hq' := always_head m Q h.2
      exact ⟨(hstep s os i hfirst ha hq).mp hq',(ih _ _ hrest ha' hq').mp h.2⟩
    · intro h
      have hq' := (hstep s os i hfirst ha hq).mpr h.1
      exact ⟨hq,(ih _ _ hrest ha' hq').mpr h.2⟩

theorem always_iff_along (C : σ → ι → Prop) (Aux Q : σ → List ο → Prop)
    (haux : ∀ s os i, Aux s os → Aux (m.step s i).1 (os++(m.step s i).2))
    (hstep : ∀ s os i, Aux s os → Q s os →
      (Q (m.step s i).1 (os++(m.step s i).2) ↔ C s i))
    (s : σ) (os : List ο) (is : List ι) (ha : Aux s os) (hq : Q s os) :
    Always m Q s os is ↔ Along m C s is :=
  always_iff_along_of m (fun _ _ => True) C Aux Q (fun s os i _ => haux s os i)
    (fun s os i _ => hstep s os i) s os is (along_true m s is) ha hq

/-- A machine whose every step is that of another one, seen through `abs`,
has the same histories, and reaches what `abs` shows of its states. -/
theorem run_refines {τ : Type*} (n : Machine τ ι ο) (abs : σ → τ)
    (hstep : ∀ s i, n.step (abs s) i = (abs (m.step s i).1,(m.step s i).2)) (s : σ) (is : List ι) :
    n.run (abs s) is = (abs (m.run s is).1,(m.run s is).2) := by
  induction is generalizing s with
  | nil => rfl
  | cons i is ih => rw [Machine.run,Machine.run,hstep,ih]

/-- A machine each of whose steps is, seen through `abs` and `outs`, a run of
another one, has only runs of that one, seen so. -/
theorem run_simulates {τ κ π : Type*} (n : Machine τ κ π) (abs : σ → τ) (outs : ο → List π)
    (hstep : ∀ s i, ∃ js, n.run (abs s) js = (abs (m.step s i).1,(m.step s i).2.flatMap outs))
    (s : σ) (is : List ι) :
    ∃ js, n.run (abs s) js = (abs (m.run s is).1,(m.run s is).2.flatMap outs) := by
  induction is generalizing s with
  | nil => exact ⟨[],rfl⟩
  | cons i is ih =>
    obtain ⟨js,hjs⟩ := hstep s i
    obtain ⟨ks,hks⟩ := ih (m.step s i).1
    refine ⟨js++ks,?_⟩
    rw [run_append,hjs,hks,Machine.run,List.flatMap_append]

section
variable {τ κ π : Type*}

def Machine.comap (f : κ → ι) : Machine σ κ ο where
  step s j := m.step s (f j)

theorem run_comap (f : κ → ι) (s : σ) (is : List κ) : (m.comap f).run s is = m.run s (is.map f) := by
  induction is generalizing s with
  | nil => rfl
  | cons i is ih =>
    rw [List.map_cons,Machine.run,Machine.run,ih]
    rfl

theorem along_comap (f : κ → ι) (C : σ → ι → Prop) (s : σ) (is : List κ) :
    Along (m.comap f) (fun s j => C s (f j)) s is ↔ Along m C s (is.map f) := by
  induction is generalizing s with
  | nil => exact Iff.rfl
  | cons i is ih => exact and_congr_right fun _ => ih _

def Machine.feeds (ops : σ → ι → List κ) : σ → List ι → List κ
  | _, [] => []
  | s, i::is => ops s i++feeds ops (m.step s i).1 is

variable (n : Machine τ κ π) (ops : σ → ι → List κ)

/-- What every step of the first machine and what it gives to the second one
keep of the two holds at the end of every run. -/
theorem feeds_invariant (Inv : σ → List ο → τ → List π → Prop)
    (hstep : ∀ s os t es i, Inv s os t es → Inv (m.step s i).1 (os++(m.step s i).2)
      (n.run t (ops s i)).1 (es++(n.run t (ops s i)).2))
    (s : σ) (os : List ο) (t : τ) (es : List π) (is : List ι) (h : Inv s os t es) :
    Inv (m.run s is).1 (os++(m.run s is).2) (n.run t (m.feeds ops s is)).1
      (es++(n.run t (m.feeds ops s is)).2) := by
  induction is generalizing s os t es with
  | nil => simpa [Machine.run,Machine.feeds] using h
  | cons i is ih =>
    have hrest := ih _ _ _ _ (hstep s os t es i h)
    rw [Machine.feeds,run_append,Machine.run]
    simpa only [List.append_assoc] using hrest

theorem along_feeds (C : σ → ι → Prop) (D : τ → κ → Prop) (Inv : σ → τ → Prop)
    (hiff : ∀ s t i, Inv s t → (C s i ↔ Along n D t (ops s i)))
    (hstep : ∀ s t i, Inv s t → Inv (m.step s i).1 (n.run t (ops s i)).1)
    (s : σ) (t : τ) (is : List ι) (h : Inv s t) :
    Along m C s is ↔ Along n D t (m.feeds ops s is) := by
  induction is generalizing s t with
  | nil => exact Iff.rfl
  | cons i is ih =>
    rw [Machine.feeds,along_append]
    exact and_congr (hiff s t i h) (ih _ _ (hstep s t i h))

end

structure Monitor (φ ο : Type*) where
  next : φ → ο → φ
  ok : φ → ο → Bool

variable {φ ψ : Type*}

def Monitor.after (w : Monitor φ ο) (f : φ) (os : List ο) : φ := os.foldl w.next f

def Monitor.accepts (w : Monitor φ ο) : φ → List ο → Bool
  | _, [] => true
  | f, o::os => w.ok f o && accepts w (w.next f o) os

theorem after_append (w : Monitor φ ο) (f : φ) (xs ys : List ο) :
    w.after f (xs++ys) = w.after (w.after f xs) ys := List.foldl_append

theorem accepts_append (w : Monitor φ ο) (f : φ) (xs ys : List ο) :
    w.accepts f (xs++ys) = (w.accepts f xs && w.accepts (w.after f xs) ys) := by
  induction xs generalizing f with
  | nil => rfl
  | cons x xs ih =>
    rw [List.cons_append,Monitor.accepts,Monitor.accepts,ih,Bool.and_assoc]
    rfl

theorem accepts_count [DecidableEq ο] (w : Monitor φ ο) (o : ο) (seen : φ → Bool)
    (hok : ∀ f, w.ok f o = !seen f) (hset : ∀ f, seen (w.next f o) = true)
    (hkeep : ∀ f x, x ≠ o → seen (w.next f x) = seen f) (f : φ) (os : List ο)
    (h : w.accepts f os = true) : os.count o ≤ 1-(seen f).toNat := by
  induction os generalizing f with
  | nil => exact Nat.zero_le _
  | cons x os ih =>
    obtain ⟨hx,hrest⟩ := Bool.and_eq_true_iff.mp h
    have hc := ih _ hrest
    by_cases he : x = o
    · rw [he] at hx hc
      rw [hset] at hc
      have hunseen : seen f = false := by simpa [hok] using hx
      rw [he,List.count_cons_self,hunseen]
      exact Nat.succ_le_succ hc
    · rw [hkeep f x he] at hc
      rw [List.count_cons_of_ne he]
      exact hc

theorem run_accepts_eq (v : Monitor φ ο) (w : Monitor ψ ο) (Inv : σ → φ → ψ → Prop)
    (haccepts : ∀ s f g i, Inv s f g → v.accepts f (m.step s i).2 = w.accepts g (m.step s i).2)
    (hstep : ∀ s f g i, Inv s f g →
      Inv (m.step s i).1 (v.after f (m.step s i).2) (w.after g (m.step s i).2))
    (s : σ) (f : φ) (g : ψ) (is : List ι) (hs : Inv s f g) :
    v.accepts f (m.run s is).2 = w.accepts g (m.run s is).2 := by
  induction is generalizing s f g with
  | nil => rfl
  | cons i is ih =>
    rw [Machine.run,accepts_append,accepts_append,haccepts s f g i hs,ih _ _ _ (hstep s f g i hs)]

/-- Where the steps a monitor accepts keep an invariant that implies `Q`,
and the others break `Q`, a run keeps `Q` throughout exactly when the
monitor accepts its history. -/
theorem always_iff_accepts (w : Monitor φ ο) (Inv Q : σ → φ → Prop) (f : φ)
    (hq : ∀ s f, Inv s f → Q s f)
    (hgood : ∀ s f i, Inv s f → w.accepts f (m.step s i).2 = true →
      Inv (m.step s i).1 (w.after f (m.step s i).2))
    (hbad : ∀ s f i, Inv s f → w.accepts f (m.step s i).2 = false →
      ¬ Q (m.step s i).1 (w.after f (m.step s i).2))
    (s : σ) (os : List ο) (is : List ι) (hs : Inv s (w.after f os)) :
    Always m (fun s os => Q s (w.after f os)) s os is ↔
      w.accepts (w.after f os) (m.run s is).2 = true := by
  induction is generalizing s os with
  | nil => exact ⟨fun _ => rfl,fun _ => hq s _ hs⟩
  | cons i is ih =>
    rw [Machine.run,accepts_append,Bool.and_eq_true,← after_append]
    cases ha : w.accepts (w.after f os) (m.step s i).2 with
    | true =>
      have hs' := hgood s _ i hs ha
      rw [← after_append] at hs'
      rw [← ih _ _ hs']
      exact ⟨fun h => ⟨rfl,h.2⟩,fun h => ⟨hq s _ hs,h.2⟩⟩
    | false =>
      have hno := hbad s _ i hs ha
      rw [← after_append] at hno
      constructor
      · intro h
        exact absurd (always_head m _ h.2) hno
      · intro h
        exact absurd h.1 Bool.false_ne_true

def Throughout (P : List ο → ο → Prop) (os : List ο) : Prop :=
  ∀ before o after, os = before++o::after → P before o

theorem throughout_nil (P : List ο → ο → Prop) : Throughout P [] := by
  intro before o after h
  simp at h

theorem throughout_cons (P : List ο → ο → Prop) (o : ο) (os : List ο) :
    Throughout P (o::os) ↔ P [] o ∧ Throughout (fun before => P (o::before)) os := by
  constructor
  · intro h
    exact ⟨h [] o os rfl,fun before x after hos => h (o::before) x after (by rw [hos]; rfl)⟩
  · rintro ⟨ho,hos⟩ before x after h
    cases before with
    | nil =>
      obtain ⟨rfl,-⟩ := List.cons.inj h
      exact ho
    | cons y before =>
      obtain ⟨rfl,hrest⟩ := List.cons.inj h
      exact hos before x after hrest

theorem throughout_append (P : List ο → ο → Prop) (xs ys : List ο) :
    Throughout P (xs++ys) ↔ Throughout P xs ∧ Throughout (fun before => P (xs++before)) ys := by
  induction xs generalizing P with
  | nil => simp [throughout_nil]
  | cons x xs ih => simp only [List.cons_append,throughout_cons,ih,and_assoc]

end MiniRpc.StepMachine
