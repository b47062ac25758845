import Mathlib.Logic.Function.Basic

/-!
# A map with two keys per value

The second key of an entry is kept beside its value, so that the entry can be found by either key
and removed by the first. The two tables agree in every map that the operations build
(`Consistent`), so that a map is a set of entries in which each key stands once; `insert` puts an
entry in the place of those with which it shares a key (`entry_insert_iff`).
-/

namespace Shelter.Fs

structure MultikeyBTreeMap (K₁ K₂ V : Type) where
  main : K₁ → Option (K₂ × V)
  alt : K₂ → Option K₁

namespace MultikeyBTreeMap

variable {K₁ K₂ V : Type}

def new : MultikeyBTreeMap K₁ K₂ V := ⟨fun _ => none, fun _ => none⟩

section Lookup

variable (m : MultikeyBTreeMap K₁ K₂ V)

def get (key : K₁) : Option V := (m.main key).map Prod.snd

def getAlt (key : K₂) : Option V := (m.alt key).bind m.get

def Consistent : Prop :=
  ∀ k₁ k₂, m.alt k₂ = some k₁ ↔ ∃ v, m.main k₁ = some (k₂, v)

variable {m} {k₁ : K₁} {k₂ : K₂} {v : V}

theorem new_consistent : (new : MultikeyBTreeMap K₁ K₂ V).Consistent := by
  intro k₁ k₂
  simp [new]

theorem getAlt_cases (hm : m.Consistent) (k₂ : K₂) :
    (m.alt k₂ = none ∧ m.getAlt k₂ = none) ∨
      ∃ k₁ v, m.main k₁ = some (k₂, v) ∧ m.getAlt k₂ = some v := by
  rcases halt : m.alt k₂ with _ | k₁
  · exact .inl ⟨rfl, by rw [getAlt, halt]; rfl⟩
  · obtain ⟨v, hv⟩ := (hm k₁ k₂).mp halt
    exact .inr ⟨k₁, v, hv, by simp [getAlt, halt, get, hv]⟩

def Entry (m : MultikeyBTreeMap K₁ K₂ V) (k₁ : K₁) (k₂ : K₂) (v : V) : Prop :=
  m.main k₁ = some (k₂, v)

theorem Entry.alt (hm : m.Consistent) (h : m.Entry k₁ k₂ v) :
    m.alt k₂ = some k₁ := (hm k₁ k₂).mpr ⟨v, h⟩

theorem Entry.get (hm : m.Consistent) (h : m.Entry k₁ k₂ v) :
    m.get k₁ = some v ∧ m.getAlt k₂ = some v := by
  have hget : m.get k₁ = some v := congrArg (Option.map Prod.snd) h
  refine ⟨hget, ?_⟩
  unfold getAlt
  rw [h.alt hm]
  exact hget

theorem get_eq_none (h : ∀ b w, ¬ m.Entry k₁ b w) : m.get k₁ = none := by
  unfold get
  rcases hmain : m.main k₁ with _ | ⟨b, w⟩
  · rfl
  · exact absurd hmain (h b w)

end Lookup

variable [DecidableEq K₁] [DecidableEq K₂] (m : MultikeyBTreeMap K₁ K₂ V)

def insert (k₁ : K₁) (k₂ : K₂) (v : V) : Option V × MultikeyBTreeMap K₁ K₂ V :=
  let oldval := (m.alt k₂).bind m.main
  let main := match m.alt k₂ with
    | some oldkey => Function.update m.main oldkey none
    | none => m.main
  let old := (main k₁).or oldval
  let alt := Function.update m.alt k₂ (some k₁)
  (old.map Prod.snd,
    { main := Function.update main k₁ (some (k₂, v))
      alt := match old with
        | some (oldk₂, _) => if oldk₂ ≠ k₂ then Function.update alt oldk₂ none else alt
        | none => alt })

def remove (key : K₁) : Option V × MultikeyBTreeMap K₁ K₂ V :=
  match m.main key with
  | some (k₂, v) => (some v, ⟨Function.update m.main key none, Function.update m.alt k₂ none⟩)
  | none => (none, m)

def clear (_ : MultikeyBTreeMap K₁ K₂ V) : MultikeyBTreeMap K₁ K₂ V := new

/-- The value under the key is changed in place, through a shared reference to it. -/
def modify (key : K₁) (f : V → V) : MultikeyBTreeMap K₁ K₂ V :=
  { m with main := Function.update m.main key ((m.main key).map fun e => (e.1, f e.2)) }

section Consistent

variable {m} {k₁ : K₁} {k₂ : K₂} {v : V}

/-! ### `insert` -/

theorem main_insert (k₁ : K₁) (k₂ : K₂) (v : V) (a : K₁) : (m.insert k₁ k₂ v).2.main a = if a = k₁
    then some (k₂, v) else if m.alt k₂ = some a then none else m.main a := by
  unfold insert
  by_cases ha : a = k₁
  · simp [ha]
  · rcases halt : m.alt k₂ with _ | oldkey
    · simp [ha]
    · by_cases ho : a = oldkey
      · subst ho
        simp [ha]
      · simp [ha, ho, Ne.symm ho]

omit [DecidableEq K₂] in
theorem old_insert (k₁ : K₁) (k₂ : K₂) : (((match m.alt k₂ with
      | some oldkey => Function.update m.main oldkey none
      | none => m.main) k₁).or ((m.alt k₂).bind m.main)) =
      (m.main k₁).or ((m.alt k₂).bind m.main) := by
  rcases halt : m.alt k₂ with _ | oldkey
  · rfl
  · by_cases ho : k₁ = oldkey
    · -- both keys are those of one entry
      subst ho
      rcases hmain : m.main k₁ with _ | e <;> simp [hmain]
    · simp [ho]

theorem fst_insert (k₁ : K₁) (k₂ : K₂) (v : V) :
    (m.insert k₁ k₂ v).1 = (m.get k₁).or (m.getAlt k₂) := by
  show Option.map Prod.snd _ = _
  rw [old_insert]
  unfold getAlt get
  rcases m.main k₁ with _ | e
  · rcases m.alt k₂ with _ | a <;> rfl
  · rfl

theorem alt_insert (hm : m.Consistent) (k₁ : K₁) (k₂ : K₂) (v : V) (b : K₂) :
    (m.insert k₁ k₂ v).2.alt b =
      if b = k₂ then some k₁ else if (m.main k₁).map Prod.fst = some b then none else m.alt b := by
  have halt : (m.insert k₁ k₂ v).2.alt = match (m.main k₁).or ((m.alt k₂).bind m.main) with
      | some (oldk₂, _) =>
        if oldk₂ ≠ k₂ then Function.update (Function.update m.alt k₂ (some k₁)) oldk₂ none
        else Function.update m.alt k₂ (some k₁)
      | none => Function.update m.alt k₂ (some k₁) := by
    rw [← old_insert]
    rfl
  rw [halt]
  rcases hmain : m.main k₁ with _ | ⟨oldk₂, v'⟩
  · -- the entry under the second key, if there is one, has that key
    rcases hk : m.alt k₂ with _ | a
    · simp [Function.update_apply]
    · obtain ⟨v', hv'⟩ := (hm a k₂).mp hk
      simp [hv', Function.update_apply]
  · by_cases ho : oldk₂ = k₂
    · by_cases hb : b = k₂
      · simp [ho, hb]
      · simp [ho, hb, Ne.symm hb]
    · by_cases hb : b = k₂
      · simp [ho, hb, Ne.symm ho]
      · by_cases hbo : b = oldk₂
        · simp [ho, hbo]
        · simp [ho, hb, hbo, Ne.symm hbo]

theorem entry_insert_iff (hm : m.Consistent) {a : K₁} {b : K₂} {w : V} :
    (m.insert k₁ k₂ v).2.Entry a b w ↔
      a = k₁ ∧ b = k₂ ∧ w = v ∨ a ≠ k₁ ∧ b ≠ k₂ ∧ m.Entry a b w := by
  unfold Entry
  rw [main_insert]
  by_cases ha : a = k₁
  · simp [ha, eq_comm]
  · rw [if_neg ha]
    by_cases hk : m.alt k₂ = some a
    · -- the entry under the second key goes
      obtain ⟨v', hv'⟩ := (hm a k₂).mp hk
      simp only [hk, hv', if_true, reduceCtorEq, ha, false_and, false_or, Option.some.injEq,
        Prod.mk.injEq, ne_eq, not_false_eq_true, true_and, false_iff, not_and]
      exact fun hb he => absurd he.symm hb
    · rw [if_neg hk]
      constructor
      · intro h
        refine .inr ⟨ha, ?_, h⟩
        rintro rfl
        exact hk (Entry.alt hm h)
      · rintro (⟨rfl, _⟩ | ⟨_, _, h⟩)
        · exact absurd rfl ha
        · exact h

theorem insert_consistent (hm : m.Consistent) (k₁ : K₁) (k₂ : K₂) (v : V) :
    (m.insert k₁ k₂ v).2.Consistent := by
  intro a b
  have hentry : ∀ w, (m.insert k₁ k₂ v).2.main a = some (b, w) ↔ _ := fun w =>
    entry_insert_iff hm (a := a) (b := b) (w := w)
  simp only [hentry]
  rw [alt_insert hm]
  by_cases hb : b = k₂
  · subst hb
    simp [eq_comm]
  · rw [if_neg hb]
    by_cases hk : (m.main k₁).map Prod.fst = some b
    · -- the second key of the entry under `k₁` is free again
      obtain ⟨⟨b', w₀⟩, hw₀, rfl⟩ := Option.map_eq_some_iff.mp hk
      have hne : a ≠ k₁ → ¬ ∃ w, m.Entry a b' w := by
        rintro ha ⟨w, hw⟩
        have h := (hw.alt hm).symm.trans (Entry.alt hm hw₀)
        exact ha (Option.some.inj h)
      simp only [hk, if_true, reduceCtorEq, hb, false_and, and_false, false_or, ne_eq,
        not_false_eq_true, true_and, false_iff]
      rintro ⟨w, ha, hw⟩
      exact hne ha ⟨w, hw⟩
    · rw [if_neg hk, hm a b]
      constructor
      · rintro ⟨w, hw⟩
        refine ⟨w, .inr ⟨?_, hb, hw⟩⟩
        rintro rfl
        exact hk (by rw [hw]; rfl)
      · rintro ⟨w, ⟨_, h, _⟩ | ⟨_, _, hw⟩⟩
        · exact absurd h hb
        · exact ⟨w, hw⟩

theorem remove_consistent (hm : m.Consistent) (key : K₁) : (m.remove key).2.Consistent := by
  unfold remove
  rcases hkey : m.main key with _ | ⟨k₂, v⟩
  · exact hm
  · have halt : m.alt k₂ = some key := (hm key k₂).mpr ⟨v, hkey⟩
    intro a b
    by_cases ha : a = key <;> by_cases hb : b = k₂
    · simp [ha, hb]
    · subst ha
      have hnone : m.alt b ≠ some a := by
        intro h
        obtain ⟨v', hv'⟩ := (hm a b).mp h
        cases hkey.symm.trans hv'
        exact hb rfl
      simp [hb, hnone]
    · subst hb
      have hnone : ¬ ∃ v', m.main a = some (b, v') := by
        rw [← hm a b, halt]
        simpa using Ne.symm ha
      simp [ha, hnone]
    · simp [ha, hb, hm a b]

end Consistent

/-! ## Sequences of operations -/

inductive Op (K₁ K₂ V : Type)
  | insert (k₁ : K₁) (k₂ : K₂) (v : V)
  | remove (key : K₁)
  | clear

def apply : Op K₁ K₂ V → MultikeyBTreeMap K₁ K₂ V
  | .insert k₁ k₂ v => (m.insert k₁ k₂ v).2
  | .remove key => (m.remove key).2
  | .clear => m.clear

def after (ops : List (Op K₁ K₂ V)) : MultikeyBTreeMap K₁ K₂ V := ops.foldl apply new

variable {m : MultikeyBTreeMap K₁ K₂ V}

theorem apply_consistent (hm : m.Consistent) (op : Op K₁ K₂ V) : (m.apply op).Consistent := by
  cases op with
  | insert k₁ k₂ v => exact insert_consistent hm k₁ k₂ v
  | remove key => exact remove_consistent hm key
  | clear => exact new_consistent

theorem after_consistent (ops : List (Op K₁ K₂ V)) : (after ops).Consistent :=
  List.foldlRecOn ops apply new_consistent fun _ hm op _ => apply_consistent hm op

/-- `insert` as documented: the old value is that under the main key if there is one, and else that
under the alternate key; the entries with one of the keys, and no others, make way. -/
structure InsertsAsDocumented (m : MultikeyBTreeMap K₁ K₂ V) (k₁ : K₁) (k₂ : K₂) (v : V) :
    Prop where
  neither : (∀ b w, ¬ m.Entry k₁ b w) → (∀ a w, ¬ m.Entry a k₂ w) → (m.insert k₁ k₂ v).1 = none
  mainKey : ∀ b w, m.Entry k₁ b w → (m.insert k₁ k₂ v).1 = some w
  altKey : ∀ a w, (∀ b w, ¬ m.Entry k₁ b w) → m.Entry a k₂ w → (m.insert k₁ k₂ v).1 = some w
  entries : ∀ a b w, (m.insert k₁ k₂ v).2.Entry a b w ↔
    a = k₁ ∧ b = k₂ ∧ w = v ∨ a ≠ k₁ ∧ b ≠ k₂ ∧ m.Entry a b w

theorem insertsAsDocumented (hm : m.Consistent) (k₁ : K₁) (k₂ : K₂) (v : V) :
    m.InsertsAsDocumented k₁ k₂ v where
  neither h₁ h₂ := by
    rw [fst_insert, get_eq_none h₁]
    rcases getAlt_cases hm k₂ with ⟨_, hget⟩ | ⟨a, w, hmain, _⟩
    · exact hget
    · exact absurd hmain (h₂ a w)
  mainKey b w h := by
    rw [fst_insert, (h.get hm).1]
    rfl
  altKey a w h₁ h := by
    rw [fst_insert, get_eq_none h₁, (h.get hm).2]
    rfl
  entries _ _ _ := entry_insert_iff hm

/-- **Two keys per value.** After every sequence of operations the two tables are inverse to each
other, an entry is found under either of its keys, and `insert` does what its documentation says. -/
theorem multikey_documented (ops : List (Op K₁ K₂ V)) :
    (after ops).Consistent ∧
    (∀ k₁ k₂ v, (after ops).Entry k₁ k₂ v →
      (after ops).get k₁ = some v ∧ (after ops).getAlt k₂ = some v) ∧
    ∀ k₁ k₂ v, (after ops).InsertsAsDocumented k₁ k₂ v := by
  have hm := after_consistent ops
  exact ⟨hm, fun _ _ _ h => h.get hm, insertsAsDocumented hm⟩

-- both keys present, in two entries
example : ((after [.insert 1 10 'a', .insert 2 20 'b']).insert 1 20 'c').1 = some 'a' ∧
    ((after [.insert 1 10 'a', .insert 2 20 'b']).insert 1 20 'c').2.get 2 = none ∧
    ((after [.insert 1 10 'a', .insert 2 20 'b']).insert 1 20 'c').2.getAlt 10 = none := by
  decide

end MultikeyBTreeMap

end Shelter.Fs
