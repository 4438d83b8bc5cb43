import Mathlib.Data.Int.CardIntervalMod
import Mathlib.Data.Nat.ModEq
import Mathlib.Tactic.Common

/-!
# Turns of a wrapping counter

A counter that wraps at `w` is read modulo `n`, one turn after another. As
long as it does not wrap, neighbouring turns point to different places; the
turn at which it wraps points to place zero, which may be the place of the
turn before. Still no place is pointed to in `n` turns in a row, and three
turns are enough to leave it. Counted from zero, the turns are shared evenly
among the places until the counter wraps.
-/

set_option autoImplicit false

namespace MiniRpc.TurnCounter

def place (w n x i : ℕ) : ℕ := (x+i)%w%n

variable {w n x i : ℕ}

theorem place_succ (w n x i : ℕ) : place w n x (i+1) = place w n ((x+1)%w) i := by
  rw [place,place,Nat.mod_add_mod]
  congr 2
  omega

theorem succ_mod_ne (hn : 2 ≤ n) (y : ℕ) : (y+1)%n ≠ y%n := by
  intro h
  have hone := Nat.sub_mod_eq_zero_of_mod_eq h
  rw [Nat.add_sub_cancel_left,Nat.mod_eq_of_lt (by omega)] at hone
  omega

theorem place_differs (hn : 2 ≤ n) (hlt : (x+i)%w+1 < w) : place w n x (i+1) ≠ place w n x i := by
  have hnext : (x+(i+1))%w = (x+i)%w+1 := by
    rw [← Nat.add_assoc,← Nat.mod_add_mod,Nat.mod_eq_of_lt hlt]
  rw [place,place,hnext]
  exact succ_mod_ne hn _

theorem wraps_to_zero (h : (x+i)%w+1 = w) : (x+(i+1))%w = 0 := by
  rw [← Nat.add_assoc,← Nat.mod_add_mod,h,Nat.mod_self]

/-- No place is pointed to in three turns in a row; if there are only two
places, and the counter takes an even number of values, not even in two. -/
theorem place_leaves (hw : 2 ≤ w) (hn : 2 ≤ n) (htwo : n = 2 → 2 ∣ w) (x a : ℕ) :
    ∃ i < n, i ≤ 2 ∧ place w n x i ≠ a := by
  by_contra hall
  have hsame : ∀ i < n, i ≤ 2 → place w n x i = a := by
    intro i hi hi2
    by_contra hne
    exact hall ⟨i,hi,hi2,hne⟩
  have h0 := hsame 0 (by omega) (by omega)
  have h1 := hsame 1 (by omega) (by omega)
  -- The first two turns agree only if the counter wraps between them.
  have hwrap : (x+0)%w+1 = w := by
    by_contra hne
    have hlt := Nat.mod_lt (x+0) (show 0 < w by omega)
    exact place_differs hn (by omega) (h1.trans h0.symm)
  have hzero : (x+1)%w = 0 := wraps_to_zero hwrap
  rcases Nat.lt_or_ge 2 n with hthree | hle
  · have h2 := hsame 2 hthree (by omega)
    exact place_differs hn (by omega) (h2.trans h1.symm)
  · obtain rfl : n = 2 := by omega
    have heven := htwo rfl
    have hlast : place w 2 x 0 = 1 := by
      rw [place]
      omega
    have hfirst : place w 2 x 1 = 0 := by
      rw [place,hzero]
    omega

theorem count_turns {a : ℕ} (ha : a < n) {turns : ℕ} (hw : turns ≤ w) :
    (List.range turns).countP (fun i => place w n 0 i = a) =
      turns/n+if a < turns%n then 1 else 0 := by
  have hplace : ∀ i ∈ List.range turns, (place w n 0 i = a ↔ i ≡ a [MOD n]) := by
    intro i hi
    have hlt : i < w := Nat.lt_of_lt_of_le (List.mem_range.mp hi) hw
    rw [place,Nat.zero_add,Nat.mod_eq_of_lt hlt,Nat.ModEq,Nat.mod_eq_of_lt ha]
  have hcount := Nat.count_modEq_card turns (Nat.lt_of_le_of_lt (Nat.zero_le a) ha) a
  rw [Nat.mod_eq_of_lt ha] at hcount
  rw [← hcount]
  exact List.countP_congr fun i hi => by simpa using hplace i hi

end MiniRpc.TurnCounter
