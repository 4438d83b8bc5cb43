import Mathlib.Data.Nat.ModEq
import Mathlib.Data.List.Basic
import Mathlib.Tactic.Ring

/-!
# Fixed-width words in network byte order

A word of `n` bytes is written most significant byte first. The reader is
total on byte lists; the round trip reduces the written number to the
width. No protocol constant occurs in this module.
-/

set_option autoImplicit false

namespace MiniRpc.ByteOrder

def bigEndian : ℕ → ℕ → List UInt8
  | 0, _ => []
  | n+1, v => UInt8.ofNat (v/256^n) :: bigEndian n v

def wordValue : List UInt8 → ℕ
  | [] => 0
  | b::bs => b.toNat*256^bs.length+wordValue bs

@[simp] theorem bigEndian_length (n v : ℕ) : (bigEndian n v).length = n := by
  induction n with
  | zero => rfl
  | succ n ih => simp [bigEndian,ih]

theorem wordValue_bigEndian (n v : ℕ) : wordValue (bigEndian n v) = v%256^n := by
  induction n with
  | zero => simp [bigEndian,wordValue,Nat.mod_one]
  | succ n ih =>
    rw [bigEndian,wordValue,bigEndian_length,ih,Nat.mod_pow_succ,UInt8.toNat_ofNat']
    ring

/-- A number that fits the width is recovered exactly. -/
theorem wordValue_bigEndian_of_lt (n v : ℕ) (h : v < 256^n) :
    wordValue (bigEndian n v) = v := by
  rw [wordValue_bigEndian,Nat.mod_eq_of_lt h]

theorem wordValue_lt (bs : List UInt8) : wordValue bs < 256^bs.length := by
  induction bs with
  | nil => exact Nat.one_pos
  | cons b bs ih =>
    have hb : b.toNat+1 ≤ 256 := b.toNat_lt
    calc wordValue (b::bs) < b.toNat*256^bs.length+256^bs.length := Nat.add_lt_add_left ih _
      _ = (b.toNat+1)*256^bs.length := by ring
      _ ≤ 256*256^bs.length := Nat.mul_le_mul_right _ hb
      _ = 256^(b::bs).length := by rw [List.length_cons,pow_succ]; ring

theorem bigEndian_add (n v k : ℕ) : bigEndian n (k*256^n+v) = bigEndian n v := by
  induction n generalizing k with
  | zero => rfl
  | succ n ih =>
    have hsplit : k*256^(n+1)+v = k*256*256^n+v := by ring
    have hdigit : (k*256*256^n+v)/256^n = k*256+v/256^n := by
      rw [Nat.add_comm,Nat.add_mul_div_right _ _ (Nat.pow_pos (by decide)),Nat.add_comm]
    rw [bigEndian,bigEndian,hsplit,ih,hdigit]
    congr 1
    rw [← UInt8.toNat_inj,UInt8.toNat_ofNat',UInt8.toNat_ofNat',Nat.mul_comm,Nat.mul_add_mod]

theorem bigEndian_wordValue (bs : List UInt8) : bigEndian bs.length (wordValue bs) = bs := by
  induction bs with
  | nil => rfl
  | cons b bs ih =>
    have hlow := wordValue_lt bs
    have hdigit : (b.toNat*256^bs.length+wordValue bs)/256^bs.length = b.toNat := by
      rw [Nat.add_comm,Nat.add_mul_div_right _ _ (Nat.pow_pos (by decide)),
        Nat.div_eq_of_lt hlow,Nat.zero_add]
    rw [wordValue,List.length_cons,bigEndian,bigEndian_add,hdigit,ih,UInt8.ofNat_toNat]

end MiniRpc.ByteOrder
