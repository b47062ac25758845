import Shelter.Memory.GuestMemory

/-!
# Functions that overwrite parts of the memory

A device fills a buffer by stores whose values do not come from the memory. Such a function is
described by the ranges it stores to: `Overwrites m rs f` says that, on every memory with the
layout of `m`, the function changes nothing outside `rs` and leaves in `rs` bytes that do not
depend on what was there before. `Overwrites.comp` composes two of them, and
`Overwrites.sameOutside` compares the results of one on two memories: they differ only where the
memories differed and the function did not write.
-/

open Bytes

namespace Shelter

variable {M : Type} [GuestMemory M]

/-- The addresses of a list of ranges, each given by its start and its length. -/
def InRanges (rs : List (ℕ × ℕ)) (x : ℕ) : Prop := ∃ r ∈ rs, Range r.1 r.2 x

@[simp] theorem inRanges_nil (x : ℕ) : ¬ InRanges [] x := by
  rintro ⟨r, hr, _⟩
  simp at hr

@[simp] theorem inRanges_cons (r : ℕ × ℕ) (rs : List (ℕ × ℕ)) (x : ℕ) :
    InRanges (r :: rs) x ↔ Range r.1 r.2 x ∨ InRanges rs x := by
  simp [InRanges]

@[simp] theorem inRanges_append (rs rs' : List (ℕ × ℕ)) (x : ℕ) :
    InRanges (rs ++ rs') x ↔ InRanges rs x ∨ InRanges rs' x := by
  simp [InRanges, or_and_right, exists_or]

/-- On memories with the layout of `m`, the function stores to `rs` and nowhere else, and what it
stores does not depend on the memory. -/
structure Overwrites (m : M) (rs : List (ℕ × ℕ)) (f : M → M) : Prop where
  layout : ∀ m', SameLayout m m' → SameLayout m' (f m')
  frame : ∀ m', SameLayout m m' → SameOutside (InRanges rs) m' (f m')
  fixed : ∀ m₁ m₂, SameLayout m m₁ → SameLayout m m₂ →
    ∀ x, InRanges rs x → byte (f m₂) x = byte (f m₁) x

namespace Overwrites

variable {m : M} {rs rs' : List (ℕ × ℕ)} {f g : M → M}

theorem id (m : M) : Overwrites m [] id where
  layout m' _ := SameLayout.refl m'
  frame m' _ := SameOutside.refl _ m'
  fixed _ _ _ _ x hx := absurd hx (inRanges_nil x)

theorem comp (hf : Overwrites m rs f) (hg : Overwrites m rs' g) :
    Overwrites m (rs ++ rs') fun m' => g (f m') where
  layout m' h := (hf.layout m' h).trans (hg.layout _ (h.trans (hf.layout m' h)))
  frame m' h := by
    refine SameOutside.trans ((hf.frame m' h).mono fun x hx => ?_)
      ((hg.frame _ (h.trans (hf.layout m' h))).mono fun x hx => ?_)
    · exact (inRanges_append rs rs' x).mpr (.inl hx)
    · exact (inRanges_append rs rs' x).mpr (.inr hx)
  fixed m₁ m₂ h₁ h₂ x hx := by
    have h₁' := h₁.trans (hf.layout m₁ h₁)
    have h₂' := h₂.trans (hf.layout m₂ h₂)
    by_cases hg' : InRanges rs' x
    · exact hg.fixed _ _ h₁' h₂' x hg'
    · have hf' : InRanges rs x := ((inRanges_append rs rs' x).mp hx).resolve_right hg'
      rw [hg.frame _ h₁' x hg', hg.frame _ h₂' x hg']
      exact hf.fixed m₁ m₂ h₁ h₂ x hf'

theorem congr (h : Overwrites m rs f) (hrs : ∀ x, InRanges rs x ↔ InRanges rs' x) :
    Overwrites m rs' f where
  layout := h.layout
  frame m' hm := (h.frame m' hm).mono fun x => (hrs x).mp
  fixed m₁ m₂ h₁ h₂ x hx := h.fixed m₁ m₂ h₁ h₂ x ((hrs x).mpr hx)

/-- The results on two memories differ only where these did and nothing was stored. -/
theorem sameOutside (h : Overwrites m rs f) {S : ℕ → Prop} {m₁ m₂ : M} (h₁ : SameLayout m m₁)
    (h₂ : SameLayout m m₂) (hS : SameOutside S m₁ m₂) :
    SameOutside (fun x => S x ∧ ¬ InRanges rs x) (f m₁) (f m₂) := by
  intro x hx
  by_cases hr : InRanges rs x
  · exact h.fixed m₁ m₂ h₁ h₂ x hr
  · rw [h.frame m₁ h₁ x hr, h.frame m₂ h₂ x hr]
    exact hS x fun hs => hx ⟨hs, hr⟩

variable [LawfulGuestMemory M]

theorem write {a : ℕ} {bs : List Byte} (h : Mapped m a bs.length) :
    Overwrites m [(a, bs.length)] fun m' => (writeSlice m' a bs).1 where
  layout m' _ x := LawfulGuestMemory.writeSlice_find m' a bs x
  frame m' _ := (writeSlice_sameOutside m' a bs).mono fun x hx =>
    (inRanges_cons _ _ x).mpr (.inl hx)
  fixed m₁ m₂ h₁ h₂ x hx := by
    obtain ⟨hle, hlt⟩ : Range a bs.length x := by simpa using hx
    obtain ⟨i, rfl⟩ := Nat.exists_eq_add_of_le hle
    have hi : i < bs.length := by omega
    rw [LawfulGuestMemory.writeSlice_byte (h₁.mapped_iff.mpr h) hi,
      LawfulGuestMemory.writeSlice_byte (h₂.mapped_iff.mpr h) hi]

end Overwrites

end Shelter
