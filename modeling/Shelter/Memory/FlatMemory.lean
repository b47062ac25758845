import Shelter.Memory.GuestMemory

/-!
# A concrete guest memory

`FlatMemory` is a list of disjoint regions with the bytes they hold. Its operations do what
`vm_memory` documents, so it is a `LawfulGuestMemory`: the laws the devices' proofs assume are
satisfiable, and runs of the devices can be evaluated on it.
-/

open Bytes

namespace Shelter

/-- Regions as the VMM lays them out: whole pages below `2 ^ 64` that do not overlap. -/
def LayoutOk (rs : List Region) : Prop :=
  (∀ r ∈ rs, r.start % 2 = 0 ∧ r.len % 2 = 0 ∧ r.start + r.len ≤ 2 ^ 64) ∧
  ∀ r ∈ rs, ∀ r' ∈ rs, r = r' ∨ r.start + r.len ≤ r'.start ∨ r'.start + r'.len ≤ r.start
  deriving Decidable

/-- A guest memory given by its regions and its bytes. -/
structure FlatMemory where
  regions : List Region
  layout : LayoutOk regions
  data : ℕ → Byte

namespace FlatMemory

def find (m : FlatMemory) (a : ℕ) : Option Region :=
  m.regions.find? fun r => decide (r.Contains a)

/-- How many of the `n` bytes from `a` on are mapped before the first hole. -/
def mappedPrefix (m : FlatMemory) (a : ℕ) : ℕ → ℕ
  | 0 => 0
  | n + 1 => if (m.find a).isSome then mappedPrefix m (a + 1) n + 1 else 0

def put (m : FlatMemory) (a : ℕ) (bs : List Byte) : FlatMemory :=
  { m with data := fun x => if a ≤ x then (bs[x - a]?).getD (m.data x) else m.data x }

def zeroed (regions : List Region) (layout : LayoutOk regions) : FlatMemory :=
  ⟨regions, layout, fun _ => 0⟩

def atomic (m : FlatMemory) (a : ℕ) : Bool :=
  match m.find a with
  | some r => decide (a % 2 = 0 ∧ a + 2 ≤ r.start + r.len)
  | none => false

instance : GuestMemory FlatMemory where
  findRegion := find
  byte m x := m.data x
  readSlice m a n :=
    if m.mappedPrefix a n = n then some ((List.range n).map fun i => m.data (a + i)) else none
  writeSlice m a bs :=
    let k := m.mappedPrefix a bs.length
    (m.put a (bs.take k), k == bs.length)
  load m a := if m.atomic a then some (BitVec.ofNat 16 (leNat [m.data a, m.data (a + 1)])) else none
  store m a v := if m.atomic a then some (m.put a (leBytes 2 v.toNat)) else none

variable {m : FlatMemory} {a b : ℕ} {r : Region} {bs : List Byte}

theorem find_contains (h : m.find a = some r) : r ∈ m.regions ∧ r.Contains a :=
  ⟨List.mem_of_find?_eq_some h, by simpa using List.find?_some h⟩

theorem region_unique {rs : List Region} (h : LayoutOk rs) {r' : Region} (hr : r ∈ rs)
    (hr' : r' ∈ rs) (ha : r.Contains a) (ha' : r'.Contains a) : r = r' := by
  obtain ⟨h1, h2⟩ := ha
  obtain ⟨h3, h4⟩ := ha'
  rcases h.2 r hr r' hr' with he | hd | hd
  · exact he
  · omega
  · omega

theorem find_of_contains (hr : r ∈ m.regions) (hb : r.Contains b) : m.find b = some r := by
  obtain ⟨r', hr'⟩ : ∃ r', m.find b = some r' := by
    rw [← Option.isSome_iff_exists, find, List.find?_isSome]
    exact ⟨r, hr, by simpa using hb⟩
  obtain ⟨hm, hc⟩ := find_contains hr'
  rw [hr', region_unique m.layout hm hr hc hb]

theorem mappedPrefix_le (m : FlatMemory) (a n : ℕ) : m.mappedPrefix a n ≤ n := by
  induction n generalizing a with
  | zero => exact le_refl 0
  | succ n ih =>
    rw [mappedPrefix]
    split_ifs
    · exact Nat.succ_le_succ (ih _)
    · exact Nat.zero_le _

theorem mappedPrefix_eq_iff (m : FlatMemory) (a n : ℕ) : m.mappedPrefix a n = n ↔ Mapped m a n := by
  induction n generalizing a with
  | zero => exact ⟨fun _ i hi => absurd hi (Nat.not_lt_zero i), fun _ => rfl⟩
  | succ n ih =>
    rw [mappedPrefix]
    constructor
    · intro h
      split_ifs at h with hs
      have hn := (ih (a + 1)).mp (by omega)
      intro i hi
      rcases i with _ | i
      · exact hs
      · rw [show a + (i + 1) = a + 1 + i by omega]
        exact hn i (by omega)
    · intro h
      have hn : Mapped m (a + 1) n := h.mono (by omega) (by omega)
      rw [if_pos (show (m.find a).isSome = true from h 0 (by omega)), (ih (a + 1)).mpr hn]

theorem put_data_of_lt {x : ℕ} (h : x < a ∨ a + bs.length ≤ x) :
    (m.put a bs).data x = m.data x := by
  unfold put
  by_cases ha : a ≤ x
  · simp [ha, List.getElem?_eq_none (show bs.length ≤ x - a by omega)]
  · simp [ha]

theorem put_data_add {i : ℕ} (h : i < bs.length) : (m.put a bs).data (a + i) = bs.get ⟨i, h⟩ := by
  simp [put, List.getElem?_eq_getElem h]

theorem atomic_iff : m.atomic a = true ↔ AtomicAt m a := by
  show _ ↔ a % 2 = 0 ∧ ∃ r ∈ m.find a, _
  unfold atomic
  cases m.find a with
  | none | some => simp

theorem mappedPrefix_of_atomic (h : AtomicAt m a) : m.mappedPrefix a 2 = 2 := by
  obtain ⟨_, r, hr, hle⟩ := h
  obtain ⟨hm, h1, h2⟩ := find_contains hr
  refine (mappedPrefix_eq_iff m a 2).mpr fun i hi => ?_
  show (m.find (a + i)).isSome = true
  rw [find_of_contains hm ⟨by omega, by omega⟩]
  rfl

instance : LawfulGuestMemory FlatMemory where
  find_contains h := (find_contains h).2
  find_of_contains h hb := find_of_contains (find_contains h).1 hb
  find_bound {m _ r} h := (m.layout.1 r (find_contains h).1).2.2
  find_even {m _ r} h :=
    ⟨(m.layout.1 r (find_contains h).1).1, (m.layout.1 r (find_contains h).1).2.1⟩
  readSlice_eq {m a n} _ := by
    show (if m.mappedPrefix a n = n then _ else _) = _
    by_cases h : Mapped m a n
    · rw [if_pos h, if_pos ((mappedPrefix_eq_iff m a n).mpr h)]; rfl
    · rw [if_neg h, if_neg (fun h' => h ((mappedPrefix_eq_iff m a n).mp h'))]
  writeSlice_ok {m a bs} _ := by
    show (m.mappedPrefix a bs.length == bs.length) = true ↔ _
    rw [beq_iff_eq, mappedPrefix_eq_iff]
  writeSlice_find _ _ _ _ := rfl
  writeSlice_frame {m a bs x} h := by
    refine put_data_of_lt ?_
    have := mappedPrefix_le m a bs.length
    rw [List.length_take]
    omega
  writeSlice_byte {m a bs i} h hi := by
    show (m.put a (bs.take (m.mappedPrefix a bs.length))).data (a + i) = _
    rw [(mappedPrefix_eq_iff m a bs.length).mpr h, List.take_length]
    exact put_data_add hi
  load_eq m a := by
    show (if m.atomic a = true then _ else _) = _
    simp only [atomic_iff]
    rfl
  store_eq m a v := by
    show (if m.atomic a = true then some (m.put a _) else none) =
      if _ then some (m.put a ((leBytes 2 v.toNat).take (m.mappedPrefix a _))) else none
    simp only [atomic_iff]
    by_cases h : AtomicAt m a
    · rw [if_pos h, if_pos h, length_leBytes, mappedPrefix_of_atomic h,
        List.take_of_length_le (by simp)]
    · rw [if_neg h, if_neg h]

theorem sameLayout_put (m : FlatMemory) (a : ℕ) (bs : List Byte) :
    SameLayout m (m.put a bs) := fun _ => rfl

theorem sameOn_put (m : FlatMemory) {k : ℕ} (h : Apart a bs.length b k) :
    SameOn b k m (m.put a bs) := by
  intro x hx
  refine put_data_of_lt ?_
  have := h.symm x hx
  unfold Range at this
  omega

theorem mapped_of_region (hr : r ∈ m.regions) {n : ℕ} (ha : r.start ≤ a)
    (hn : a + n ≤ r.start + r.len) : Mapped m a n := by
  intro i hi
  exact addressInRange_iff.mpr ⟨r, find_of_contains hr ⟨by omega, by omega⟩⟩

end FlatMemory

end Shelter
