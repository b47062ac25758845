import Mathlib.Tactic.Common
import Mathlib.Tactic.Ring

/-!
# Little-endian byte strings

`leBytes n v` is the `n`-byte little-endian form of `v`, and `leNat` reads such a string back.
A word field that is stored and later loaded goes through this pair, so what the proofs need is
the round trip `leNat_leBytes`, and `ofNat_leNat_leBytes` for machine words.
-/

namespace Bytes

abbrev Byte := BitVec 8

/-- The number with the little-endian bytes `bs`. -/
def leNat : List Byte → ℕ
  | [] => 0
  | b :: bs => b.toNat + 256 * leNat bs

/-- The `n` low bytes of `v`, the lowest first. -/
def leBytes : ℕ → ℕ → List Byte
  | 0, _ => []
  | n + 1, v => BitVec.ofNat 8 v :: leBytes n (v / 256)

@[simp] theorem length_leBytes (n v : ℕ) : (leBytes n v).length = n := by
  induction n generalizing v with
  | zero => rfl
  | succ n ih => simp [leBytes, ih]

theorem leNat_leBytes (n v : ℕ) : leNat (leBytes n v) = v % 256 ^ n := by
  induction n generalizing v with
  | zero => simp [leBytes, leNat, Nat.mod_one]
  | succ n ih =>
    rw [leBytes, leNat, ih, BitVec.toNat_ofNat, pow_succ' 256 n, Nat.mod_mul]

theorem leNat_lt (bs : List Byte) : leNat bs < 256 ^ bs.length := by
  induction bs with
  | nil => exact Nat.one_pos
  | cons b bs ih =>
    rw [leNat, List.length_cons, pow_succ' 256 bs.length]
    omega

theorem leBytes_leNat (bs : List Byte) : leBytes bs.length (leNat bs) = bs := by
  induction bs with
  | nil => rfl
  | cons b bs ih =>
    have hdiv : (b.toNat + 256 * leNat bs) / 256 = leNat bs := by omega
    have hhead : BitVec.ofNat 8 (b.toNat + 256 * leNat bs) = b := by
      apply BitVec.eq_of_toNat_eq
      rw [BitVec.toNat_ofNat]
      omega
    rw [List.length_cons, leNat, leBytes, hdiv, hhead, ih]

theorem ofNat_leNat_leBytes {w : ℕ} (n : ℕ) (v : BitVec w) (hw : 2 ^ w ≤ 256 ^ n) :
    BitVec.ofNat w (leNat (leBytes n v.toNat)) = v := by
  have hv : v.toNat < 256 ^ n := lt_of_lt_of_le v.isLt hw
  rw [leNat_leBytes, Nat.mod_eq_of_lt hv]
  exact BitVec.eq_of_toNat_eq (by simp)

end Bytes
