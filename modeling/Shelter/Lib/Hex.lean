import Mathlib.Data.BitVec
import Mathlib.Data.Nat.Digits.Lemmas
import Shelter.Lib.Bytes

/-!
# Hexadecimal text

Bytes as pairs of lower-case digits (`hexOf`, `ofHex`; either case is read) and numbers as
upper-case numerals of a least width (`upperNumeral`).
-/

namespace Hex

open Bytes List

/-! ## Digits -/

def digitValue : Char → Option ℕ
  | '0' => some 0
  | '1' => some 1
  | '2' => some 2
  | '3' => some 3
  | '4' => some 4
  | '5' => some 5
  | '6' => some 6
  | '7' => some 7
  | '8' => some 8
  | '9' => some 9
  | 'a' | 'A' => some 10
  | 'b' | 'B' => some 11
  | 'c' | 'C' => some 12
  | 'd' | 'D' => some 13
  | 'e' | 'E' => some 14
  | 'f' | 'F' => some 15
  | _ => none

def IsHex (s : List Char) : Prop := ∀ c ∈ s, (digitValue c).isSome = true

instance (s : List Char) : Decidable (IsHex s) := List.decidableBAll _ s

def lowerDigit (d : ℕ) : Char := if d < 10 then Char.ofNat (48 + d) else Char.ofNat (87 + d)

def upperDigit (d : ℕ) : Char := if d < 10 then Char.ofNat (48 + d) else Char.ofNat (55 + d)

theorem digitValue_lowerDigit {d : ℕ} (h : d < 16) : digitValue (lowerDigit d) = some d := by
  have hall : ∀ d < 16, digitValue (lowerDigit d) = some d := by decide
  exact hall d h

theorem digitValue_upperDigit {d : ℕ} (h : d < 16) : digitValue (upperDigit d) = some d := by
  have hall : ∀ d < 16, digitValue (upperDigit d) = some d := by decide
  exact hall d h

theorem lowerDigit_of_digitValue {c : Char} {d : ℕ} (h : digitValue c = some d) :
    d < 16 ∧ lowerDigit d = c.toLower := by
  unfold digitValue at h
  split at h
  all_goals cases h
  all_goals decide

theorem isAlphanum_of_digitValue {c : Char} (h : (digitValue c).isSome = true) :
    c.isAlphanum = true := by
  unfold digitValue at h
  split at h
  all_goals first | decide | cases h

/-! ## Bytes -/

def hexOf : List Byte → List Char
  | [] => []
  | b :: bs => lowerDigit (b.toNat / 16) :: lowerDigit (b.toNat % 16) :: hexOf bs

def ofHex : List Char → List Byte
  | a :: b :: rest =>
    BitVec.ofNat 8 (16 * (digitValue a).getD 0 + (digitValue b).getD 0) :: ofHex rest
  | _ => []

@[simp] theorem length_hexOf (bs : List Byte) : (hexOf bs).length = 2 * bs.length := by
  induction bs with
  | nil => rfl
  | cons b bs ih =>
    rw [hexOf, length_cons, length_cons, ih, length_cons]
    omega

theorem hexOf_append (bs bs' : List Byte) : hexOf (bs ++ bs') = hexOf bs ++ hexOf bs' := by
  induction bs with
  | nil => rfl
  | cons b bs ih => rw [cons_append, hexOf, ih, hexOf, cons_append, cons_append]

theorem isHex_hexOf (bs : List Byte) : IsHex (hexOf bs) := by
  induction bs with
  | nil => exact nofun
  | cons b bs ih =>
    intro c hc
    rcases mem_cons.mp hc with rfl | hc
    · rw [digitValue_lowerDigit (by omega)]
      rfl
    rcases mem_cons.mp hc with rfl | hc
    · rw [digitValue_lowerDigit (by omega)]
      rfl
    · exact ih c hc

theorem ofHex_hexOf (bs : List Byte) : ofHex (hexOf bs) = bs := by
  induction bs with
  | nil => rfl
  | cons b bs ih =>
    rw [hexOf, ofHex, ih, digitValue_lowerDigit (by omega), digitValue_lowerDigit (by omega)]
    congr 1
    apply BitVec.eq_of_toNat_eq
    rw [BitVec.toNat_ofNat]
    simp only [Option.getD_some]
    omega

theorem hexOf_ofHex : ∀ {s : List Char}, IsHex s → s.length % 2 = 0 →
    hexOf (ofHex s) = s.map Char.toLower
  | [], _, _ => rfl
  | [_], _, hodd => by cases hodd
  | a :: b :: rest, hs, heven => by
    obtain ⟨x, hx⟩ := Option.isSome_iff_exists.mp (hs a (by simp))
    obtain ⟨y, hy⟩ := Option.isSome_iff_exists.mp (hs b (by simp))
    obtain ⟨hx16, hxa⟩ := lowerDigit_of_digitValue hx
    obtain ⟨hy16, hyb⟩ := lowerDigit_of_digitValue hy
    have hrest : hexOf (ofHex rest) = rest.map Char.toLower := by
      refine hexOf_ofHex (fun c hc => hs c (by simp [hc])) ?_
      simp only [length_cons] at heven
      omega
    have hbyte : (BitVec.ofNat 8 (16 * x + y)).toNat = 16 * x + y := by
      exact Nat.mod_eq_of_lt (by omega)
    rw [ofHex, hx, hy, hexOf, hrest]
    simp only [Option.getD_some, hbyte, map_cons]
    rw [show (16 * x + y) / 16 = x by omega, show (16 * x + y) % 16 = y by omega, hxa, hyb]

theorem length_ofHex : ∀ {s : List Char}, s.length % 2 = 0 → (ofHex s).length = s.length / 2
  | [], _ => rfl
  | [_], hodd => by cases hodd
  | a :: b :: rest, heven => by
    have hrest : (ofHex rest).length = rest.length / 2 := by
      refine length_ofHex ?_
      simp only [length_cons] at heven
      omega
    rw [ofHex, length_cons, hrest]
    simp only [length_cons]
    omega

/-! ## Numerals -/

variable (width n : ℕ)

/-- The digits of a number from the highest on, filled up with zeros to `width`. -/
def paddedDigits : List ℕ := (Nat.digitsAppend 16 width n).reverse

def upperNumeral : List Char := (paddedDigits width n).map upperDigit

def valueOf (ds : List ℕ) : ℕ := Nat.ofDigits 16 ds.reverse

theorem valueOf_paddedDigits : valueOf (paddedDigits width n) = n := by
  rw [valueOf, paddedDigits, reverse_reverse, Nat.digitsAppend,
    Nat.ofDigits_append_replicate_zero, Nat.ofDigits_digits]

theorem paddedDigits_lt {width n d : ℕ} (h : d ∈ paddedDigits width n) : d < 16 := by
  rcases mem_append.mp (mem_reverse.mp h) with hd | hd
  · exact Nat.digits_lt_base (by decide) hd
  · rw [eq_of_mem_replicate hd]
    decide

theorem length_paddedDigits {width n : ℕ} (h : n < 16 ^ width) :
    (paddedDigits width n).length = width := by
  rw [paddedDigits, length_reverse]
  exact Nat.length_digitsAppend (by decide) width h

theorem isHex_upperNumeral : IsHex (upperNumeral width n) := by
  intro c hc
  obtain ⟨d, hd, rfl⟩ := mem_map.mp hc
  rw [digitValue_upperDigit (paddedDigits_lt hd)]
  rfl

end Hex
