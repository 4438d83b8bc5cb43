import Mathlib.Data.List.Induction
import Mathlib.Algebra.Order.Group.Int

/-!
# Leases renewed by contact and swept on a clock

A lease is granted with a value, renewed by later contacts and released by
its holder. A sweep removes it when the time since the last contact exceeds
the limit; nothing else looks at the age. The history alone says who holds
a claim and when the holder was in contact, and the lease is compared with
it. Sweeps that are added to a history are unobservable exactly when no
contact revives a lease that is already too old.
-/

set_option autoImplicit false

namespace MiniRpc.LeaseHistory

variable {ν : Type*}

structure Lease (ν : Type*) where
  value : ν
  last : ℤ
  deriving DecidableEq, Repr

inductive Op (ν : Type*) where
  | grant (v : ν)
  | release
  | renew
  | sweep
  deriving DecidableEq, Repr

variable (limit : ℤ)

def Fresh (now : ℤ) (l : Lease ν) : Prop := now-l.last ≤ limit

instance (now : ℤ) (l : Lease ν) : Decidable (Fresh limit now l) :=
  inferInstanceAs (Decidable (_ ≤ _))

def sweep (now : ℤ) (x : Option (Lease ν)) : Option (Lease ν) :=
  x.filter fun l => Fresh limit now l

theorem sweep_fresh {now : ℤ} {l : Lease ν} (h : Fresh limit now l) :
    sweep limit now (some l) = some l := by
  rw [sweep,Option.filter_some,if_pos (decide_eq_true h)]

theorem sweep_stale {now : ℤ} {l : Lease ν} (h : ¬ Fresh limit now l) :
    sweep limit now (some l) = none := by
  rw [sweep,Option.filter_some,if_neg (by simpa using h)]

theorem fresh_now (h : 0 ≤ limit) (v : ν) (now : ℤ) : Fresh limit now ⟨v,now⟩ := by
  rw [Fresh]
  dsimp only
  omega

def step (x : Option (Lease ν)) (now : ℤ) : Op ν → Option (Lease ν)
  | .grant v => some ⟨v,now⟩
  | .release => none
  | .renew => x.map fun l => { l with last := now }
  | .sweep => sweep limit now x

def run : Option (Lease ν) → List (ℤ × Op ν) → Option (Lease ν)
  | x, [] => x
  | x, (now,op)::h => run (step limit x now op) h

theorem run_append (x : Option (Lease ν)) (h k : List (ℤ × Op ν)) :
    run limit x (h++k) = run limit (run limit x h) k := by
  induction h generalizing x with
  | nil => rfl
  | cons e h ih => exact ih _

/-- The value of the last grant that was not released, with the times of
that grant and of the contacts after it, the latest first. -/
structure Claim (ν : Type*) where
  value : ν
  latest : ℤ
  earlier : List ℤ
  deriving DecidableEq, Repr

def claimStep (x : Option (Claim ν)) (now : ℤ) : Op ν → Option (Claim ν)
  | .grant v => some ⟨v,now,[]⟩
  | .release => none
  | .renew => x.map fun c => ⟨c.value,now,c.latest::c.earlier⟩
  | .sweep => x

def claim : Option (Claim ν) → List (ℤ × Op ν) → Option (Claim ν)
  | x, [] => x
  | x, (now,op)::h => claim (claimStep x now op) h

theorem claim_append (x : Option (Claim ν)) (h k : List (ℤ × Op ν)) :
    claim x (h++k) = claim (claim x h) k := by
  induction h generalizing x with
  | nil => rfl
  | cons e h ih => exact ih _

def Unbroken : List ℤ → Prop
  | [] => True
  | [_] => True
  | t::u::ts => t-u ≤ limit ∧ Unbroken (u::ts)

def Ordered (h : List (ℤ × Op ν)) : Prop := h.Pairwise fun a b => a.1 ≤ b.1

theorem run_sound (h : List (ℤ × Op ν)) (l : Lease ν) (hl : run limit none h = some l) :
    ∃ c, claim none h = some c ∧ c.value = l.value ∧ c.latest = l.last := by
  induction h using List.reverseRecOn generalizing l with
  | nil => simp [run] at hl
  | append_singleton h e ih =>
    obtain ⟨now,op⟩ := e
    rw [run_append] at hl
    rw [claim_append]
    cases op with
    | grant v =>
      obtain rfl := Option.some.inj hl
      exact ⟨⟨v,now,[]⟩,rfl,rfl,rfl⟩
    | release => simp [run,step] at hl
    | renew =>
      simp only [run,step,Option.map_eq_some_iff] at hl
      obtain ⟨l',hl',rfl⟩ := hl
      obtain ⟨c,hc,hv,-⟩ := ih l' hl'
      rw [hc]
      exact ⟨⟨c.value,now,c.latest::c.earlier⟩,rfl,hv,rfl⟩
    | sweep =>
      simp only [run,step,sweep,Option.filter_eq_some_iff] at hl
      exact ih l hl.1

theorem run_last_mem (h : List (ℤ × Op ν)) (l : Lease ν) (hl : run limit none h = some l) :
    ∃ e ∈ h, e.1 = l.last := by
  induction h using List.reverseRecOn generalizing l with
  | nil => simp [run] at hl
  | append_singleton h e ih =>
    obtain ⟨now,op⟩ := e
    rw [run_append] at hl
    cases op with
    | grant v =>
      obtain rfl := Option.some.inj hl
      exact ⟨(now,.grant v),by simp,rfl⟩
    | release => simp [run,step] at hl
    | renew =>
      simp only [run,step,Option.map_eq_some_iff] at hl
      obtain ⟨l',-,rfl⟩ := hl
      exact ⟨(now,.renew),by simp,rfl⟩
    | sweep =>
      simp only [run,step,sweep,Option.filter_eq_some_iff] at hl
      obtain ⟨e,he,heq⟩ := ih l hl.1
      exact ⟨e,by simp [he],heq⟩

/-- A claim whose contacts were never further apart than the limit, up to
now, is held, with the value of its grant. -/
theorem run_complete (h : List (ℤ × Op ν)) (ho : Ordered h) (t : ℤ) (ht : ∀ e ∈ h, e.1 ≤ t)
    (c : Claim ν) (hc : claim none h = some c)
    (hu : Unbroken limit (t::c.latest::c.earlier)) : run limit none h = some ⟨c.value,c.latest⟩ := by
  induction h using List.reverseRecOn generalizing t c with
  | nil => simp [claim] at hc
  | append_singleton h e ih =>
    obtain ⟨now,op⟩ := e
    have hnow : now ≤ t := ht (now,op) (by simp)
    have hh : Ordered h := (List.pairwise_append.mp ho).1
    have hbefore : ∀ e ∈ h, e.1 ≤ now := fun e he =>
      (List.pairwise_append.mp ho).2.2 e he (now,op) (by simp)
    rw [claim_append] at hc
    rw [run_append]
    cases op with
    | grant v =>
      obtain rfl := Option.some.inj hc
      rfl
    | release => simp [claim,claimStep] at hc
    | renew =>
      simp only [claim,claimStep,Option.map_eq_some_iff] at hc
      obtain ⟨d,hd,rfl⟩ := hc
      have hr := ih hh now hbefore d hd hu.2
      rw [hr]
      rfl
    | sweep =>
      have hage : now-c.latest ≤ limit := by
        have := hu.1
        omega
      have hr := ih hh now hbefore c hc ⟨hage,hu.2⟩
      rw [hr]
      exact sweep_fresh limit hage

/-- `Sweeps g h`: `h` is `g` with sweeps added. -/
inductive Sweeps : List (ℤ × Op ν) → List (ℤ × Op ν) → Prop
  | nil : Sweeps [] []
  | same (e : ℤ × Op ν) {g h : List (ℤ × Op ν)} : Sweeps g h → Sweeps (e::g) (e::h)
  | extra (now : ℤ) {g h : List (ℤ × Op ν)} : Sweeps g h → Sweeps g ((now,.sweep)::h)

/-- What added sweeps can do to a lease up to time `t`: nothing, or remove
it when it is already too old. -/
def Behind (t : ℤ) (x y : Option (Lease ν)) : Prop :=
  y = x ∨ y = none ∧ ∀ l ∈ x, ¬ Fresh limit t l

def Timely (x : Option (Lease ν)) (now : ℤ) (op : Op ν) : Prop :=
  match op with
  | .renew => ∀ l ∈ x, Fresh limit now l
  | _ => True

theorem behind_later {t u : ℤ} (h : t ≤ u) {x y : Option (Lease ν)} (hb : Behind limit t x y) :
    Behind limit u x y := by
  rcases hb with rfl | ⟨rfl,hx⟩
  · exact Or.inl rfl
  · refine Or.inr ⟨rfl,fun l hl hf => hx l hl ?_⟩
    unfold Fresh at hf ⊢
    omega

theorem behind_sweep {t : ℤ} {x y : Option (Lease ν)} (hb : Behind limit t x y) :
    Behind limit t x (sweep limit t y) := by
  rcases hb with rfl | ⟨rfl,hx⟩
  · cases y with
    | none => exact Or.inl rfl
    | some l =>
      by_cases hf : Fresh limit t l
      · exact Or.inl (by simp [sweep,hf])
      · exact Or.inr ⟨by simp [sweep,hf],by simpa using hf⟩
  · exact Or.inr ⟨rfl,hx⟩

theorem behind_read {t : ℤ} {x y : Option (Lease ν)} (hb : Behind limit t x y) :
    sweep limit t y = sweep limit t x := by
  rcases hb with rfl | ⟨rfl,hx⟩
  · rfl
  · cases x with
    | none => rfl
    | some l =>
      rw [sweep_stale limit (hx l rfl)]
      rfl

theorem behind_renew {t : ℤ} {x y : Option (Lease ν)} (hb : Behind limit t x y)
    (hc : ∀ l ∈ x, Fresh limit t l) : y = x := by
  rcases hb with rfl | ⟨rfl,hx⟩
  · rfl
  · cases x with
    | none => rfl
    | some l => exact absurd (hc l rfl) (hx l rfl)

theorem behind_step {t : ℤ} {x y : Option (Lease ν)} (op : Op ν) (hb : Behind limit t x y)
    (hc : Timely limit x t op) : Behind limit t (step limit x t op) (step limit y t op) := by
  cases op with
  | grant v => exact Or.inl rfl
  | release => exact Or.inl rfl
  | renew => exact Or.inl (by rw [behind_renew limit hb hc])
  | sweep => exact Or.inl (behind_read limit hb)

theorem late_renew (h : List (ℤ × Op ν)) (now : ℤ) (l : Lease ν) (hl : run limit none h = some l)
    (hage : ¬ Fresh limit now l) :
    run limit none (h++[(now,.renew)]) = some ⟨l.value,now⟩ ∧
    run limit none (h++[(now,.sweep),(now,.renew)]) = none := by
  rw [run_append,run_append,hl]
  constructor
  · rfl
  · rw [run,step,sweep_stale limit hage]
    rfl

def AllTimely : Option (Lease ν) → List (ℤ × Op ν) → Prop
  | _, [] => True
  | x, (now,op)::g => Timely limit x now op ∧ AllTimely (step limit x now op) g

/-- Added sweeps leave the lease behind at most, as long as every contact
of the history without them is in time. -/
theorem sweeps_behind {g h : List (ℤ × Op ν)} (hs : Sweeps g h) (x y : Option (Lease ν)) (t u : ℤ)
    (hb : Behind limit t x y) (ho : Ordered h) (ht : ∀ e ∈ h, t ≤ e.1) (hc : AllTimely limit x g)
    (htu : t ≤ u) (hu : ∀ e ∈ h, e.1 ≤ u) : Behind limit u (run limit x g) (run limit y h) := by
  induction hs generalizing x y t with
  | nil => exact behind_later limit htu hb
  | same e hs ih =>
    obtain ⟨now,op⟩ := e
    have hb' := behind_later limit (ht (now,op) (by simp)) hb
    exact ih _ _ now (behind_step limit op hb' hc.1) (List.pairwise_cons.mp ho).2
      (fun e he => (List.pairwise_cons.mp ho).1 e he) hc.2 (hu (now,op) (by simp))
      (fun e he => hu e (by simp [he]))
  | extra now hs ih =>
    have hb' := behind_later limit (ht (now,.sweep) (by simp)) hb
    exact ih _ _ now (behind_sweep limit hb') (List.pairwise_cons.mp ho).2
      (fun e he => (List.pairwise_cons.mp ho).1 e he) hc (hu (now,.sweep) (by simp))
      (fun e he => hu e (by simp [he]))

end MiniRpc.LeaseHistory
