import Mathlib.Data.Nat.ModEq
import Mathlib.Tactic.Common

/-!
# Histories kept in a ring

A history `xs` that only grows is kept in a ring of `size` cells: entry `k` stands in cell
`k % size`, and the counters that name entries are themselves reduced modulo `2 ^ w`.

`Holds cell size xs lo` says that the entries from `lo` on are still in their cells. Pushing an
entry keeps it as long as at most `size` entries are live (`Holds.push`), and a reduced counter
names the cell of the unreduced one when `size` divides the modulus (`slot_mod`).
-/

namespace Ring

open BitVec Nat

variable {α : Type*}

def slot (size k : ℕ) : ℕ := k % size

variable {size n lo w a b : ℕ} {cell cell' : ℕ → α} {xs : List α}

theorem slot_lt (h : 0 < size) (k : ℕ) : slot size k < size := mod_lt k h

theorem slot_mod (h : size ∣ n) (k : ℕ) : slot size (k % n) = slot size k :=
  mod_mod_of_dvd k h

theorem slot_ne {j k : ℕ} (hjk : j < k) (hlt : k < j + size) : slot size j ≠ slot size k := by
  intro h
  have hd : size ∣ k - j := (modEq_iff_dvd' hjk.le).mp h
  have := le_of_dvd (by omega) hd
  omega

/-- The entries `lo ≤ k` of the history `xs` stand in their cells. -/
def Holds (cell : ℕ → α) (size : ℕ) (xs : List α) (lo : ℕ) : Prop :=
  ∀ k, lo ≤ k → ∀ h : k < xs.length, cell (slot size k) = xs.get ⟨k, h⟩

theorem Holds.nil (cell : ℕ → α) (size lo : ℕ) : Holds cell size [] lo :=
  fun k _ h => absurd h (not_lt_zero k)

theorem Holds.mono {lo' : ℕ} (h : Holds cell size xs lo) (hlo : lo ≤ lo') :
    Holds cell size xs lo' :=
  fun k hk hlt => h k (hlo.trans hk) hlt

theorem Holds.congr (h : Holds cell size xs lo) (hs : 0 < size)
    (hc : ∀ i < size, cell' i = cell i) : Holds cell' size xs lo := by
  intro k hk hlt
  rw [hc _ (slot_lt hs k)]
  exact h k hk hlt

/-- A pushed entry overwrites no live one while at most `size` entries are live. -/
theorem Holds.push {x : α} (h : Holds cell size xs lo) (hroom : xs.length < lo + size)
    (hx : cell' (slot size xs.length) = x)
    (hframe : ∀ i < size, i ≠ slot size xs.length → cell' i = cell i) :
    Holds cell' size (xs ++ [x]) lo := by
  intro k hk hlt
  rw [List.length_append, List.length_singleton] at hlt
  by_cases hk' : k = xs.length
  · subst hk'
    simpa using hx
  · have hkx : k < xs.length := by omega
    have hs : 0 < size := by omega
    rw [hframe _ (slot_lt hs k) (slot_ne hkx (by omega)), h k hk hkx]
    simp [List.getElem_append_left hkx]

/-! ## Wrapped counters -/

theorem toNat_ofNat_umod {size : BitVec w} (h : size.toNat ∣ 2 ^ w) (k : ℕ) :
    (BitVec.ofNat w k % size).toNat = slot size.toNat k := by
  exact slot_mod h k

/-- The distance of two counters reduced modulo `n` is their true distance while that is
below `n`. -/
theorem sub_mod_eq (hab : a ≤ b) (hlt : b - a < n) : (n - a % n + b % n) % n = b - a := by
  have hn : 0 < n := by omega
  have ha := mod_lt a hn
  obtain ⟨d, rfl⟩ := Nat.exists_eq_add_of_le hab
  rw [Nat.add_sub_cancel_left] at hlt ⊢
  rw [show (a + d) % n = (a % n + d) % n by rw [mod_add_mod], add_mod_mod,
    show n - a % n + (a % n + d) = d + n by omega, add_mod_right, mod_eq_of_lt hlt]

theorem eq_of_mod_eq (hab : a ≤ b) (hlt : b - a < n) (h : a % n = b % n) : a = b := by
  have hd : n ∣ b - a := (modEq_iff_dvd' hab).mp h
  rcases Nat.eq_zero_or_pos (b - a) with h0 | h0
  · omega
  · have := le_of_dvd h0 hd
    omega

theorem toNat_ofNat_sub (hab : a ≤ b) (hlt : b - a < 2 ^ w) :
    (BitVec.ofNat w b - BitVec.ofNat w a).toNat = b - a := by
  exact sub_mod_eq hab hlt

theorem ofNat_eq_iff (hab : a ≤ b) (hlt : b - a < 2 ^ w) :
    BitVec.ofNat w b = BitVec.ofNat w a ↔ b = a := by
  constructor
  · intro h
    have hm := congrArg BitVec.toNat h
    exact (eq_of_mod_eq hab hlt hm.symm).symm
  · intro h
    rw [h]

/-- Whether a counter `e` is one of the `n` from `old` on, as an inequality of wrapped distances. -/
theorem passed_iff (hn : n < 2 ^ w) (old e : BitVec w) :
    old + BitVec.ofNat w n - e - 1 < BitVec.ofNat w n ↔ ∃ k < n, e = old + BitVec.ofNat w k := by
  -- `d` is the distance of `e` from `old`
  obtain ⟨d, hd, rfl⟩ : ∃ d < 2 ^ w, e = old + BitVec.ofNat w d :=
    ⟨(e - old).toNat, (e - old).isLt, by rw [ofNat_toNat, setWidth_eq,
      BitVec.add_comm, BitVec.sub_add_cancel]⟩
  have hdist : old + BitVec.ofNat w n - (old + BitVec.ofNat w d) - 1 =
      BitVec.ofNat w n - BitVec.ofNat w (d + 1) := by
    rw [ofNat_add]
    grind
  rw [hdist, lt_def, toNat_ofNat, mod_eq_of_lt hn]
  constructor
  · intro hlt
    refine ⟨d, ?_, rfl⟩
    by_contra hnd
    have hwrap : BitVec.ofNat w n = BitVec.ofNat w (n + 2 ^ w) := by
      apply eq_of_toNat_eq
      rw [toNat_ofNat, toNat_ofNat, add_mod_right]
    rw [hwrap, toNat_ofNat_sub (by omega) (by omega)] at hlt
    omega
  · rintro ⟨k, hk, he⟩
    have hdk : BitVec.ofNat w d = BitVec.ofNat w k := by
      exact (BitVec.add_right_inj old).mp he
    have hlt : d < n := by
      have hm := congrArg BitVec.toNat hdk
      rw [toNat_ofNat, toNat_ofNat, mod_eq_of_lt hd,
        mod_eq_of_lt (hk.trans hn)] at hm
      omega
    rw [toNat_ofNat_sub (by omega) (by omega)]
    omega

end Ring
