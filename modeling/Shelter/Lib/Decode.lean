import Shelter.Lib.Bytes

/-!
# Decoders of byte strings

A decoder takes a value off the front of a byte string. `Reads x bs a` says that `bs` is a form of
`a` for `x`: put in front of anything, `x` reads `a` and leaves the rest. This composes along a `do`
block (`Reads.bind`), so that the proof for a record has one step for each of its fields.

`decodeAll` repeats a decoder until the bytes are used up; what was put together from forms of
values is decoded to these values (`decodeAll_flatMap`).
-/

open Bytes

/-- A value from the front of a byte string, and what follows it. -/
def Decoder (A : Type) : Type := List Byte → Option (A × List Byte)

namespace Decoder

open List

variable {A B V : Type}

instance : Monad Decoder where
  pure a := fun bs => some (a, bs)
  bind x f := fun bs => (x bs).bind fun out => f out.1 out.2

def bytes (n : ℕ) : Decoder (List Byte) := fun bs =>
  if bs.length < n then none else some (bs.take n, bs.drop n)

def number (w : ℕ) : Decoder (BitVec w) := do
  let bs ← bytes (w / 8)
  pure (BitVec.ofNat w (leNat bs))

def Reads (x : Decoder A) (bs : List Byte) (a : A) : Prop :=
  ∀ rest, x (bs ++ rest) = some (a, rest)

theorem reads_pure (a : A) : Reads (pure a) [] a := fun _ => rfl

variable {x : Decoder A} {bs : List Byte} {a : A} {form : V → List Byte} {value : V → A}
  {vs : List V}

theorem Reads.bind {f : A → Decoder B} {bs' : List Byte} {b : B} (h : Reads x bs a)
    (h' : Reads (f a) bs' b) : Reads (x >>= f) (bs ++ bs') b := by
  intro rest
  show (x (bs ++ bs' ++ rest)).bind _ = _
  rw [append_assoc, h]
  exact h' rest

theorem Reads.bind_pure {f : A → B} (h : Reads x bs a) :
    Reads (x >>= fun a => pure (f a)) bs (f a) := by
  have hbind := Reads.bind (f := fun a => pure (f a)) h (reads_pure (f a))
  rwa [append_nil] at hbind

theorem reads_bytes (bs : List Byte) : Reads (bytes bs.length) bs bs := by
  intro rest
  unfold bytes
  rw [if_neg (by rw [length_append]; omega), take_left, drop_left]

theorem reads_number {w : ℕ} (hw : 2 ^ w ≤ 256 ^ (w / 8)) (v : BitVec w) :
    Reads (number w) (leBytes (w / 8) v.toNat) v := by
  have hbytes := reads_bytes (leBytes (w / 8) v.toNat)
  rw [length_leBytes] at hbytes
  have hread := hbytes.bind_pure (f := fun bs => BitVec.ofNat w (leNat bs))
  rwa [ofNat_leNat_leBytes _ v hw] at hread

/-! ## Sequences -/

/-- Values until the bytes are used up, the `k`-th and later ones by `x k`, `x (k + 1)` and so on.
There are no more values than `fuel`. -/
def decodeFrom (x : ℕ → Decoder A) : ℕ → ℕ → List Byte → Option (List A)
  | 0, _, bs => if bs = [] then some [] else none
  | fuel + 1, k, bs =>
    if bs = [] then some []
    else (x k bs).bind fun out => (decodeFrom x fuel (k + 1) out.2).map (out.1 :: ·)

def decodeAll (x : ℕ → Decoder A) (bs : List Byte) : Option (List A) :=
  decodeFrom x bs.length 0 bs

theorem eq_nil_of_decodeAll {x : ℕ → Decoder A} {bs : List Byte} (h : decodeAll x bs = some []) :
    bs = [] := by
  cases bs with
  | nil => rfl
  | cons b bs =>
    obtain ⟨out, -, hout⟩ := Option.bind_eq_some_iff.mp h
    obtain ⟨_, -, hcons⟩ := Option.map_eq_some_iff.mp hout
    cases hcons

theorem decodeFrom_flatMap {x : ℕ → Decoder A} {k fuel : ℕ} (hform : ∀ v ∈ vs, form v ≠ [])
    (hreads : ∀ i v, vs[i]? = some v → Reads (x (k + i)) (form v) (value v))
    (hfuel : (vs.flatMap form).length ≤ fuel) :
    decodeFrom x fuel k (vs.flatMap form) = some (vs.map value) := by
  induction vs generalizing k fuel with
  | nil => cases fuel <;> rfl
  | cons v vs ih =>
    have hv : form v ≠ [] := hform v (mem_cons_self)
    have hpos := length_pos_iff.mpr hv
    rw [flatMap_cons, length_append] at hfuel
    obtain ⟨fuel, rfl⟩ := Nat.exists_eq_add_one_of_ne_zero (show fuel ≠ 0 by omega)
    have hhead : x k (form v ++ vs.flatMap form) = some (value v, vs.flatMap form) :=
      hreads 0 v rfl _
    have htail : decodeFrom x fuel (k + 1) (vs.flatMap form) = some (vs.map value) := by
      refine ih (fun w hw => hform w (mem_cons_of_mem v hw)) (fun i w hw => ?_) (by omega)
      rw [Nat.add_right_comm, Nat.add_assoc]
      exact hreads (i + 1) w hw
    rw [flatMap_cons, decodeFrom, if_neg (by simp [hv]), hhead, Option.bind_some, htail]
    rfl

theorem decodeAll_flatMap {x : ℕ → Decoder A} (hform : ∀ v ∈ vs, form v ≠ [])
    (hreads : ∀ i v, vs[i]? = some v → Reads (x i) (form v) (value v)) :
    decodeAll x (vs.flatMap form) = some (vs.map value) := by
  refine decodeFrom_flatMap hform (fun i v hv => ?_) le_rfl
  rw [Nat.zero_add]
  exact hreads i v hv

end Decoder
