import Mathlib.Order.Lattice
import Mathlib.Tactic.Common

/-!
# Maps kept in the order of their keys

The keys are told apart, and ordered, by `ord` only; two keys that `ord` does not tell apart are one
key, and inserting under the second one keeps the first. `lastLe` is the search for the last entry
that is not above a bound.
-/

/-- A list of entries whose keys increase. -/
structure OrderedMap (κ β : Type*) {α : Type*} [LinearOrder α] (ord : κ → α) where
  entries : List (κ × β)
  sorted : entries.Pairwise fun a b => ord a.1 < ord b.1

namespace OrderedMap

open List

variable {κ β α : Type*} [LinearOrder α] {ord : κ → α}

instance : EmptyCollection (OrderedMap κ β ord) := ⟨⟨[], .nil⟩⟩

variable (ord) in
/-- The value that was there before, and the entries after an insertion. -/
def insertEntry (k : κ) (v : β) : List (κ × β) → Option β × List (κ × β)
  | [] => (none, [(k, v)])
  | (k', v') :: rest =>
    if ord k < ord k' then (none, (k, v) :: (k', v') :: rest)
    else if ord k = ord k' then (some v', (k', v) :: rest)
    else ((insertEntry k v rest).1, (k', v') :: (insertEntry k v rest).2)

variable {k : κ} {v : β} {l : List (κ × β)} {e : κ × β} {m : OrderedMap κ β ord} {x : α}

theorem ord_of_mem_insertEntry (h : e ∈ (insertEntry ord k v l).2) :
    ord e.1 = ord k ∨ ∃ e' ∈ l, ord e'.1 = ord e.1 := by
  induction l with
  | nil => exact .inl (by rw [mem_singleton.mp h])
  | cons a l ih =>
    rw [insertEntry] at h
    split_ifs at h with hlt heq
    · rcases mem_cons.mp h with rfl | h
      · exact .inl rfl
      · exact .inr ⟨e, h, rfl⟩
    · rcases mem_cons.mp h with rfl | h
      · exact .inl heq.symm
      · exact .inr ⟨e, mem_cons_of_mem _ h, rfl⟩
    · rcases mem_cons.mp h with rfl | h
      · exact .inr ⟨_, mem_cons_self, rfl⟩
      · rcases ih h with hk | ⟨e', he', heq'⟩
        · exact .inl hk
        · exact .inr ⟨e', mem_cons_of_mem _ he', heq'⟩

theorem insertEntry_sorted (h : l.Pairwise fun a b => ord a.1 < ord b.1) :
    (insertEntry ord k v l).2.Pairwise fun a b => ord a.1 < ord b.1 := by
  induction l with
  | nil => exact pairwise_singleton _ _
  | cons a l ih =>
    obtain ⟨k', v'⟩ := a
    obtain ⟨hfirst, hrest⟩ := pairwise_cons.mp h
    rw [insertEntry]
    split_ifs with hlt heq
    · refine pairwise_cons.mpr ⟨fun e he => ?_, h⟩
      rcases mem_cons.mp he with rfl | he
      · exact hlt
      · exact lt_trans hlt (hfirst e he)
    · exact pairwise_cons.mpr ⟨hfirst, hrest⟩
    · refine pairwise_cons.mpr ⟨fun e he => ?_, ih hrest⟩
      have hgt : ord k' < ord k := lt_of_le_of_ne (not_lt.mp hlt) (Ne.symm heq)
      rcases ord_of_mem_insertEntry he with hk | ⟨e', he', hk⟩
      · rw [hk]
        exact hgt
      · rw [← hk]
        exact hfirst e' he'

theorem insertEntry_of_new (h : ∀ e ∈ l, ord e.1 ≠ ord k) :
    (insertEntry ord k v l).1 = none ∧ (insertEntry ord k v l).2.Perm ((k, v) :: l) := by
  induction l with
  | nil => exact ⟨rfl, .refl _⟩
  | cons a l ih =>
    obtain ⟨k', v'⟩ := a
    obtain ⟨hnone, hperm⟩ := ih fun e he => h e (mem_cons_of_mem _ he)
    have hne : ord k ≠ ord k' := fun heq => h _ mem_cons_self heq.symm
    rw [insertEntry]
    split_ifs with hlt
    · exact ⟨rfl, .refl _⟩
    · exact ⟨hnone, (hperm.cons _).trans (.swap _ _ _)⟩

def insert (m : OrderedMap κ β ord) (k : κ) (v : β) : Option β × OrderedMap κ β ord :=
  ((insertEntry ord k v m.entries).1, ⟨(insertEntry ord k v m.entries).2,
    insertEntry_sorted m.sorted⟩)

/-- The last entry whose key is not above `x`. -/
def lastLe (m : OrderedMap κ β ord) (x : α) : Option (κ × β) :=
  m.entries.reverse.find? fun e => ord e.1 ≤ x

theorem lastLe_eq_none : m.lastLe x = none ↔ ∀ e ∈ m.entries, x < ord e.1 := by
  simp [lastLe, List.find?_eq_none]

/-- The entry that is found has the greatest key among those not above the bound. -/
theorem lastLe_eq_some (h : m.lastLe x = some e) :
    e ∈ m.entries ∧ ord e.1 ≤ x ∧ ∀ e' ∈ m.entries, ord e'.1 ≤ x → e' = e ∨ ord e'.1 < ord e.1 := by
  obtain ⟨hle, above, below, hsplit, habove⟩ := List.find?_eq_some_iff_append.mp h
  have hmem : ∀ {e' : κ × β}, e' ∈ m.entries ↔ e' ∈ above ++ e :: below := by
    intro e'
    rw [← hsplit, mem_reverse]
  have hsorted : (above ++ e :: below).Pairwise fun a b => ord b.1 < ord a.1 := by
    rw [← hsplit]
    exact pairwise_reverse.mpr m.sorted
  refine ⟨hmem.mpr (by simp), of_decide_eq_true hle, fun e' he' hle' => ?_⟩
  rcases mem_append.mp (hmem.mp he') with hin | hin
  · have hnot := habove e' hin
    simp [hle'] at hnot
  · rcases mem_cons.mp hin with rfl | hin
    · exact .inl rfl
    · have htail := (pairwise_append.mp hsorted).2.1
      exact .inr (rel_of_pairwise_cons htail hin)

end OrderedMap
