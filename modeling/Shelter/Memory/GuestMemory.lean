import Shelter.Lib.Bytes

/-!
# Guest memory

The devices reach guest memory only through the `vm_memory` crate. `GuestMemory` lists the
operations the modelled code calls, and `LawfulGuestMemory` what it relies on: an address is
usable when a region contains it, a slice access succeeds when every byte of it is mapped, and
an atomic access needs, besides, two bytes of one region at an even address.

Addresses are natural numbers; a `GuestAddress` field of the code is a 64-bit word and enters
through `toNat`. The content is observed byte by byte through `byte`.
-/

open Bytes

namespace Shelter

open List

abbrev U16 := BitVec 16
abbrev U32 := BitVec 32
abbrev U64 := BitVec 64

structure Region where
  start : ℕ
  len : ℕ
  deriving DecidableEq, Repr

namespace Region

def Contains (r : Region) (a : ℕ) : Prop := r.start ≤ a ∧ a < r.start + r.len
  deriving Decidable

end Region

/-- The operations of `vm_memory::GuestMemoryMmap` that the devices call. `none` and `false`
stand for the `Err` results, whose payload no caller inspects. -/
class GuestMemory (M : Type) where
  /-- The region that contains the address. -/
  findRegion : M → ℕ → Option Region
  /-- The byte the memory holds at a mapped address. -/
  byte : M → ℕ → Byte
  /-- `read_slice`, and `read_obj` of a plain struct of that many bytes. -/
  readSlice : M → ℕ → ℕ → Option (List Byte)
  /-- `write_slice` and `write_obj`. A failed write may have stored a part of its bytes. -/
  writeSlice : M → ℕ → List Byte → M × Bool
  /-- The atomic `load` of a `u16`. -/
  load : M → ℕ → Option U16
  /-- The atomic `store` of a `u16`. -/
  store : M → ℕ → U16 → Option M

export GuestMemory (findRegion byte readSlice writeSlice load store)

variable {M : Type} [GuestMemory M] (m : M)

/-- `address_in_range`. -/
def addressInRange (a : ℕ) : Bool := (findRegion m a).isSome

variable (a n : ℕ)

def Mapped : Prop := ∀ i < n, addressInRange m (a + i) = true

instance : Decidable (Mapped m a n) := by unfold Mapped; infer_instance

def AtomicAt (a : ℕ) : Prop :=
  a % 2 = 0 ∧ ∃ r ∈ findRegion m a, a + 2 ≤ r.start + r.len
  deriving Decidable

def bytesAt : List Byte := (List.range n).map fun i => byte m (a + i)

/-- What the code relies on. Regions are whole pages below `2 ^ 64`, so their bounds are even. -/
class LawfulGuestMemory (M : Type) [GuestMemory M] : Prop where
  find_contains {m : M} {a : ℕ} {r : Region} : findRegion m a = some r → r.Contains a
  find_of_contains {m : M} {a b : ℕ} {r : Region} :
    findRegion m a = some r → r.Contains b → findRegion m b = some r
  find_bound {m : M} {a : ℕ} {r : Region} : findRegion m a = some r → r.start + r.len ≤ 2 ^ 64
  find_even {m : M} {a : ℕ} {r : Region} :
    findRegion m a = some r → r.start % 2 = 0 ∧ r.len % 2 = 0
  readSlice_eq {m : M} {a n : ℕ} : 0 < n →
    readSlice m a n = if Mapped m a n then some (bytesAt m a n) else none
  writeSlice_ok {m : M} {a : ℕ} {bs : List Byte} : bs ≠ [] →
    ((writeSlice m a bs).2 = true ↔ Mapped m a bs.length)
  writeSlice_find (m : M) (a : ℕ) (bs : List Byte) (x : ℕ) :
    findRegion (writeSlice m a bs).1 x = findRegion m x
  writeSlice_frame {m : M} {a : ℕ} {bs : List Byte} {x : ℕ} : x < a ∨ a + bs.length ≤ x →
    byte (writeSlice m a bs).1 x = byte m x
  writeSlice_byte {m : M} {a : ℕ} {bs : List Byte} {i : ℕ} : Mapped m a bs.length →
    ∀ hi : i < bs.length, byte (writeSlice m a bs).1 (a + i) = bs.get ⟨i, hi⟩
  load_eq (m : M) (a : ℕ) :
    load m a = if AtomicAt m a then some (BitVec.ofNat 16 (leNat (bytesAt m a 2))) else none
  store_eq (m : M) (a : ℕ) (v : U16) :
    store m a v = if AtomicAt m a then some (writeSlice m a (leBytes 2 v.toNat)).1 else none

/-! ## Addresses -/

def checkedAdd (a off : ℕ) : Option ℕ := if a + off < 2 ^ 64 then some (a + off) else none

/-- `checked_offset`: the sum, if it does not overflow and a region contains it. -/
def checkedOffset (base off : ℕ) : Option ℕ :=
  (checkedAdd base off).filter fun a => addressInRange m a

def SameLayout (m m' : M) : Prop := ∀ a, findRegion m' a = findRegion m a

/-- Whether an empty write is accepted depends on the regions only. -/
def EmptyWritesByLayout (M : Type) [GuestMemory M] : Prop :=
  ∀ (m m' : M) (a : ℕ), SameLayout m m' → (writeSlice m' a []).2 = (writeSlice m a []).2

/-- `m'` differs from `m` only at the addresses in `S`. -/
def SameOutside (S : ℕ → Prop) (m m' : M) : Prop := ∀ x, ¬ S x → byte m' x = byte m x

def Range (x : ℕ) : Prop := a ≤ x ∧ x < a + n
  deriving Decidable

def SameOn (m m' : M) : Prop := ∀ x, Range a n x → byte m' x = byte m x

def Apart (a n b k : ℕ) : Prop := ∀ x, Range a n x → ¬ Range b k x

variable {m m' : M} {a : ℕ} {bs : List Byte}

section Basic

theorem SameLayout.refl (m : M) : SameLayout m m := fun _ => rfl

variable {m₁ m₂ m₃ : M} {n b k : ℕ} {S : ℕ → Prop}

theorem SameLayout.trans (h : SameLayout m₁ m₂) (h' : SameLayout m₂ m₃) :
    SameLayout m₁ m₃ := fun a => (h' a).trans (h a)

theorem SameLayout.addressInRange_eq (h : SameLayout m m') (a : ℕ) :
    addressInRange m' a = addressInRange m a := by
  unfold addressInRange; rw [h a]

theorem SameLayout.mapped_iff (h : SameLayout m m') : Mapped m' a n ↔ Mapped m a n := by
  unfold Mapped; simp only [h.addressInRange_eq]

theorem SameLayout.checkedOffset_eq (h : SameLayout m m') (a off : ℕ) :
    checkedOffset m' a off = checkedOffset m a off := by
  unfold checkedOffset; simp only [h.addressInRange_eq]

theorem Mapped.append (h : Mapped m a n) (h' : Mapped m (a + n) k) : Mapped m a (n + k) := by
  intro i hi
  rcases Nat.lt_or_ge i n with hlow | hhigh
  · exact h i hlow
  · rw [show a + i = a + n + (i - n) by omega]
    exact h' _ (by omega)

theorem Mapped.mono (h : Mapped m a n) (hab : a ≤ b) (hbk : b + k ≤ a + n) : Mapped m b k := by
  intro i hi
  rw [show b + i = a + (b - a + i) by omega]
  exact h _ (by omega)

theorem Range.mono {x : ℕ} (h : Range b k x) (hab : a ≤ b) (hbk : b + k ≤ a + n) :
    Range a n x := ⟨hab.trans h.1, by have := h.2; omega⟩

theorem SameOn.mono (h : SameOn a n m m') (hab : a ≤ b) (hbk : b + k ≤ a + n) : SameOn b k m m' :=
  fun x hx => h x (hx.mono hab hbk)

theorem SameOn.trans (h : SameOn a n m₁ m₂) (h' : SameOn a n m₂ m₃) :
    SameOn a n m₁ m₃ := fun x hx => (h' x hx).trans (h x hx)

theorem SameOutside.refl (S : ℕ → Prop) (m : M) : SameOutside S m m := fun _ _ => rfl

theorem SameOutside.trans (h : SameOutside S m₁ m₂) (h' : SameOutside S m₂ m₃) :
    SameOutside S m₁ m₃ :=
  fun x hx => (h' x hx).trans (h x hx)

theorem SameOutside.sameOn (h : SameOutside (Range a n) m m') (hd : Apart a n b k) :
    SameOn b k m m' :=
  fun x hx => h x fun hx' => hd x hx' hx

theorem SameOutside.mono {T : ℕ → Prop} (h : SameOutside S m m') (hST : ∀ x, S x → T x) :
    SameOutside T m m' :=
  fun x hx => h x fun hx' => hx (hST x hx')

theorem bytesAt_congr (h : SameOn a n m m') : bytesAt m' a n = bytesAt m a n := by
  refine map_congr_left fun i hi => h _ ⟨by omega, ?_⟩
  have := mem_range.mp hi
  omega

theorem byte_of_bytesAt_eq (h : bytesAt m' a n = bytesAt m a n) {i : ℕ} (hi : i < n) :
    byte m' (a + i) = byte m (a + i) := by
  exact map_inj_left.mp h i (mem_range.mpr hi)

@[simp] theorem length_bytesAt (m : M) (a n : ℕ) : (bytesAt m a n).length = n := by
  simp [bytesAt]

theorem Apart.symm (h : Apart a n b k) : Apart b k a n :=
  fun x hx hx' => h x hx' hx

theorem apart_of_le (h : a + n ≤ b ∨ b + k ≤ a) : Apart a n b k := by
  intro x hx hx'
  have := hx.1; have := hx.2; have := hx'.1; have := hx'.2
  omega

theorem apart_iff : Apart a n b k ↔ n = 0 ∨ k = 0 ∨ a + n ≤ b ∨ b + k ≤ a := by
  constructor
  · intro h
    have ha := h a
    have hb := h b
    unfold Range at ha hb
    omega
  · intro h x hx hx'
    unfold Range at hx hx'
    omega

instance (a n b k : ℕ) : Decidable (Apart a n b k) := decidable_of_iff _ apart_iff.symm

theorem checkedOffset_some {base off : ℕ} (h : checkedOffset m base off = some a) :
    a = base + off := by
  unfold checkedOffset checkedAdd at h
  split_ifs at h
  · rw [Option.filter_some] at h
    split_ifs at h
    exact (Option.some.inj h).symm
  · simp at h

end Basic

/-! ## Reading and writing -/

def wordAt (w : ℕ) (m : M) (a n : ℕ) : BitVec w := BitVec.ofNat w (leNat (bytesAt m a n))

def field16 (m : M) (a : ℕ) : U16 := wordAt 16 m a 2

/-- `m'` is `m` after the bytes `bs` were stored at `a`. -/
structure Wrote (a : ℕ) (bs : List Byte) (m m' : M) : Prop where
  layout : SameLayout m m'
  frame : SameOutside (Range a bs.length) m m'
  bytes : bytesAt m' a bs.length = bs

theorem field16_congr (h : SameOn a 2 m m') : field16 m' a = field16 m a := by
  unfold field16 wordAt; rw [bytesAt_congr h]

theorem Wrote.sameOn {b k : ℕ} (h : Wrote a bs m m') (hd : Apart a bs.length b k) :
    SameOn b k m m' := h.frame.sameOn hd

theorem Wrote.field16_eq {v : U16} (h : Wrote a (leBytes 2 v.toNat) m m') : field16 m' a = v := by
  have hb := h.bytes
  rw [length_leBytes] at hb
  unfold field16 wordAt
  rw [hb]
  exact ofNat_leNat_leBytes 2 v (by norm_num)

theorem bytesAt_append (m : M) (a n k : ℕ) :
    bytesAt m a (n + k) = bytesAt m a n ++ bytesAt m (a + n) k := by
  unfold bytesAt
  rw [range_add, map_append, map_map]
  congr 1
  refine map_congr_left fun i _ => ?_
  rw [Function.comp_apply, Nat.add_assoc]

theorem Wrote.append {m₁ m₂ : M} {bs' : List Byte} (h : Wrote a bs m m₁)
    (h' : Wrote (a + bs.length) bs' m₁ m₂) : Wrote a (bs ++ bs') m m₂ where
  layout := h.layout.trans h'.layout
  frame := by
    refine SameOutside.trans (h.frame.mono fun x hx => ?_) (h'.frame.mono fun x hx => ?_)
    · exact hx.mono le_rfl (by rw [length_append]; omega)
    · exact hx.mono (by omega) (by rw [length_append]; omega)
  bytes := by
    have hfirst : Apart (a + bs.length) bs'.length a bs.length := apart_of_le (.inr le_rfl)
    rw [length_append, bytesAt_append, bytesAt_congr (h'.sameOn hfirst), h.bytes, h'.bytes]

section Lawful

theorem addressInRange_iff : addressInRange m a = true ↔ ∃ r, findRegion m a = some r := by
  unfold addressInRange; rw [Option.isSome_iff_exists]

variable [LawfulGuestMemory M]

theorem Mapped.lt {n : ℕ} (h : Mapped m a n) (hn : 0 < n) : a + n ≤ 2 ^ 64 := by
  obtain ⟨r, hr⟩ := addressInRange_iff.mp (h (n - 1) (by omega))
  have h1 := (LawfulGuestMemory.find_contains hr).2
  have h2 := LawfulGuestMemory.find_bound hr
  omega

theorem Mapped.atomicAt (h : Mapped m a 2) (ha : a % 2 = 0) : AtomicAt m a := by
  refine ⟨ha, ?_⟩
  obtain ⟨r, hr⟩ := addressInRange_iff.mp (h 0 (by omega))
  obtain ⟨hs, hl⟩ := LawfulGuestMemory.find_even hr
  obtain ⟨h1, h2⟩ := LawfulGuestMemory.find_contains hr
  exact ⟨r, hr, by omega⟩

theorem AtomicAt.mapped (h : AtomicAt m a) : Mapped m a 2 := by
  obtain ⟨_, r, hr, hle⟩ := h
  obtain ⟨h1, h2⟩ := LawfulGuestMemory.find_contains hr
  intro i hi
  exact addressInRange_iff.mpr
    ⟨r, LawfulGuestMemory.find_of_contains hr ⟨by omega, by omega⟩⟩

theorem load_eq_some (h : AtomicAt m a) : load m a = some (field16 m a) := by
  rw [LawfulGuestMemory.load_eq, if_pos h]; rfl

theorem readSlice_eq_some {n : ℕ} (hn : 0 < n) (h : Mapped m a n) :
    readSlice m a n = some (bytesAt m a n) := by
  rw [LawfulGuestMemory.readSlice_eq hn, if_pos h]

theorem writeSlice_sameOutside (m : M) (a : ℕ) (bs : List Byte) :
    SameOutside (Range a bs.length) m (writeSlice m a bs).1 :=
  fun x hx => LawfulGuestMemory.writeSlice_frame (by unfold Range at hx; omega)

theorem writeSlice_wrote (h : Mapped m a bs.length) : Wrote a bs m (writeSlice m a bs).1 where
  layout x := LawfulGuestMemory.writeSlice_find m a bs x
  frame := writeSlice_sameOutside m a bs
  bytes := by
    refine ext_getElem (by simp) fun i h1 h2 => ?_
    simpa [bytesAt] using LawfulGuestMemory.writeSlice_byte h h2

theorem store_of_atomicAt (h : AtomicAt m a) (v : U16) :
    ∃ m', store m a v = some m' ∧ Wrote a (leBytes 2 v.toNat) m m' := by
  refine ⟨(writeSlice m a (leBytes 2 v.toNat)).1, ?_, writeSlice_wrote (by simpa using h.mapped)⟩
  rw [LawfulGuestMemory.store_eq, if_pos h]

end Lawful

end Shelter
