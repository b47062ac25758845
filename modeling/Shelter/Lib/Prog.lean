import Mathlib.Logic.Basic

/-!
# Programs with a state, errors and panics

A function of the modelled code that changes a state has three outcomes: it returns, it returns an
error, or it panics. In the first two cases the state it leaves counts. `Prog S E A` is the type of
such functions; its `do` blocks read like the code, with `?` as the bind.

`Does R x` says that `x` does not panic and that, however it ends, the state it leaves is related to
the one it began in. For a relation that is reflexive and transitive (`Closed`) this composes, so
that the rules below carry it through a `do` block.
-/

/-- `none` is a panic; otherwise there is a result, and the state at the end. -/
def Prog (S E A : Type) : Type := S → Option (Except E A × S)

namespace Prog

variable {S T E E' A B : Type}

instance : Monad (Prog S E) where
  pure a := fun s => some (.ok a, s)
  bind x f := fun s =>
    match x s with
    | none => none
    | some (.error e, s') => some (.error e, s')
    | some (.ok a, s') => f a s'

def fail (e : E) : Prog S E A := fun s => some (.error e, s)

def panic : Prog S E A := fun _ => none

def get : Prog S E S := fun s => some (.ok s, s)

def modify (f : S → S) : Prog S E Unit := fun s => some (.ok (), f s)

/-- The `?` on a value. -/
def ofExcept : Except E A → Prog S E A
  | .ok a => pure a
  | .error e => fail e

/-- `ok_or`. -/
def ofOption (e : E) : Option A → Prog S E A
  | some a => pure a
  | none => fail e

/-- Runs `x` and goes on with its result, also if that is an error. -/
def attempt (x : Prog S E A) : Prog S E' (Except E A) := fun s =>
  (x s).map fun out => (.ok out.1, out.2)

/-- An `if` without `else`. -/
def when (c : Prop) [Decidable c] (x : Prog S E Unit) : Prog S E Unit := if c then x else pure ()

/-- `x` on a part of the state. -/
def zoom (view : S → T) (put : T → S → S) (x : Prog T E A) : Prog S E A := fun s =>
  (x (view s)).map fun out => (out.1, put out.2 s)

/-! ## Running a program -/

section Run

variable {x : Prog S E A} {f : A → Prog S E B} {s s' : S}

@[simp] theorem pure_run (a : A) (s : S) : (pure a : Prog S E A) s = some (.ok a, s) := rfl

@[simp] theorem fail_run (e : E) (s : S) : (fail e : Prog S E A) s = some (.error e, s) := rfl

@[simp] theorem panic_run (s : S) : (panic : Prog S E A) s = none := rfl

@[simp] theorem get_run (s : S) : (get : Prog S E S) s = some (.ok s, s) := rfl

@[simp] theorem modify_run (f : S → S) (s : S) :
    (modify f : Prog S E Unit) s = some (.ok (), f s) := rfl

theorem attempt_run (x : Prog S E A) (s : S) :
    (attempt x : Prog S E' (Except E A)) s = (x s).map fun out => (.ok out.1, out.2) := rfl

theorem attempt_ok {r : Except E A} (h : x s = some (r, s')) :
    (attempt x : Prog S E' (Except E A)) s = some (.ok r, s') := by
  rw [attempt_run, h]
  rfl

variable {a : A}

theorem bind_ok (h : x s = some (.ok a, s')) : (x >>= f) s = f a s' := by
  change (match x s with | none => none | some (.error e, s') => _ | some (.ok a, s') => _) = _
  rw [h]

theorem bind_error {e : E} (h : x s = some (.error e, s')) : (x >>= f) s = some (.error e, s') := by
  change (match x s with | none => none | some (.error e, s') => _ | some (.ok a, s') => _) = _
  rw [h]

theorem bind_none (h : x s = none) : (x >>= f) s = none := by
  change (match x s with | none => none | some (.error e, s') => _ | some (.ok a, s') => _) = _
  rw [h]

/-- A `do` block ends after its first program, with that one's error, or with the rest of it. -/
theorem bind_cases {r : Except E B} (h : (x >>= f) s = some (r, s')) :
    (∃ e, x s = some (.error e, s') ∧ r = .error e) ∨
      ∃ a s₁, x s = some (.ok a, s₁) ∧ f a s₁ = some (r, s') := by
  rcases hx : x s with _ | ⟨e | a, s₁⟩
  · cases (bind_none hx).symm.trans h
  · cases (bind_error hx).symm.trans h
    exact .inl ⟨e, rfl, rfl⟩
  · rw [bind_ok hx] at h
    exact .inr ⟨a, s₁, rfl, h⟩

/-- A run that returns, from the parts of it that can be compared. -/
theorem exists_ok {out : Option (Except E A × S)} (view : S → B) {b : B}
    (h : out.map (fun p => (p.1.toOption, view p.2)) = some (some a, b)) :
    ∃ s', out = some (.ok a, s') ∧ view s' = b := by
  rcases out with _ | ⟨e | c, s'⟩ <;> cases h
  exact ⟨s', rfl, rfl⟩

end Run

/-! ## What a program does -/

/-- `x` ends, and leaves a state that is related to the first one. -/
def Does (R : S → S → Prop) (x : Prog S E A) : Prop :=
  ∀ s, ∃ r s', x s = some (r, s') ∧ R s s'

/-- A relation between the states before and after that may be chained. -/
structure Closed (R : S → S → Prop) : Prop where
  refl : ∀ s, R s s
  trans : ∀ {s₁ s₂ s₃}, R s₁ s₂ → R s₂ s₃ → R s₁ s₃

variable {R : S → S → Prop} {x : Prog S E A}

theorem Does.mono {R' : S → S → Prop} (h : Does R x) (hR : ∀ s s', R s s' → R' s s') :
    Does R' x := fun s =>
  let ⟨r, s', hx, hs⟩ := h s
  ⟨r, s', hx, hR s s' hs⟩

theorem Does.run (h : Does R x) {s s' : S} {r : Except E A} (hx : x s = some (r, s')) : R s s' := by
  obtain ⟨r', s'', hx', hs⟩ := h s
  cases hx.symm.trans hx'
  exact hs

section Rules

variable {R : S → S → Prop} {x : Prog S E A}

theorem does_pure (hR : Closed R) (a : A) : Does R (pure a : Prog S E A) :=
  fun s => ⟨_, s, rfl, hR.refl s⟩

theorem does_fail (hR : Closed R) (e : E) : Does R (fail e : Prog S E A) :=
  fun s => ⟨_, s, rfl, hR.refl s⟩

theorem does_get (hR : Closed R) : Does R (get : Prog S E S) := fun s => ⟨_, s, rfl, hR.refl s⟩

theorem does_modify {f : S → S} (h : ∀ s, R s (f s)) : Does R (modify f : Prog S E Unit) :=
  fun s => ⟨_, f s, rfl, h s⟩

theorem does_ofExcept (hR : Closed R) (r : Except E A) : Does R (ofExcept r : Prog S E A) := by
  cases r with
  | ok a => exact does_pure hR a
  | error e => exact does_fail hR e

theorem does_ofOption (hR : Closed R) (e : E) (o : Option A) :
    Does R (ofOption e o : Prog S E A) := by
  cases o with
  | some a => exact does_pure hR a
  | none => exact does_fail hR e

theorem does_bind (hR : Closed R) {f : A → Prog S E B} (hx : Does R x)
    (hf : ∀ a, Does R (f a)) : Does R (x >>= f) := by
  intro s
  obtain ⟨e | a, s₁, h₁, hs₁⟩ := hx s
  · exact ⟨_, s₁, bind_error h₁, hs₁⟩
  · obtain ⟨r, s₂, h₂, hs₂⟩ := hf a s₁
    exact ⟨r, s₂, (bind_ok h₁).trans h₂, hR.trans hs₁ hs₂⟩

theorem does_attempt (hx : Does R x) : Does R (attempt x : Prog S E' (Except E A)) := by
  intro s
  obtain ⟨r, s', h, hs⟩ := hx s
  exact ⟨.ok r, s', by rw [attempt_run, h]; rfl, hs⟩

variable {c : Prop}

theorem does_ite [Decidable c] {y : Prog S E A} (hx : c → Does R x) (hy : ¬ c → Does R y) :
    Does R (if c then x else y) := by
  split
  · exact hx ‹_›
  · exact hy ‹_›

theorem does_when (hR : Closed R) [Decidable c] {x : Prog S E Unit} (hx : c → Does R x) :
    Does R (when c x) :=
  does_ite hx fun _ => does_pure hR ()

end Rules

/-! ## What a program that may panic leaves -/

/-- If `x` ends, it leaves a state that is related to the first one. -/
def Leaves (R : S → S → Prop) (x : Prog S E A) : Prop := ∀ s r s', x s = some (r, s') → R s s'

section PartialRules

variable {R : S → S → Prop} {x : Prog S E A}

theorem Does.leaves (h : Does R x) : Leaves R x := fun _ _ _ hx => h.run hx

theorem leaves_panic : Leaves R (panic : Prog S E A) := nofun

variable {f : A → Prog S E B}

theorem leaves_bind (hR : Closed R) (hx : Leaves R x) (hf : ∀ a, Leaves R (f a)) :
    Leaves R (x >>= f) := by
  intro s r s' h
  obtain ⟨e, h₁, -⟩ | ⟨a, s₁, h₁, h₂⟩ := bind_cases h
  · exact hx s _ s' h₁
  · exact hR.trans (hx s _ s₁ h₁) (hf a s₁ r s' h₂)

theorem Leaves.bind_cases {s s' : S} {r : Except E B} (hx : Leaves R x)
    (h : (x >>= f) s = some (r, s')) :
    (∃ e, r = .error e ∧ R s s') ∨
      ∃ a s₁, x s = some (.ok a, s₁) ∧ R s s₁ ∧ f a s₁ = some (r, s') := by
  obtain ⟨e, h₁, hr⟩ | ⟨a, s₁, h₁, h₂⟩ := Prog.bind_cases h
  · exact .inl ⟨e, hr, hx s _ s' h₁⟩
  · exact .inr ⟨a, s₁, h₁, hx s _ s₁ h₁, h₂⟩

theorem leaves_ite {c : Prop} [Decidable c] {y : Prog S E A} (hx : c → Leaves R x)
    (hy : ¬ c → Leaves R y) : Leaves R (if c then x else y) := by
  split
  · exact hx ‹_›
  · exact hy ‹_›

theorem leaves_zoom {view : S → T} {put : T → S → S} {Q : T → T → Prop} {y : Prog T E A}
    (hy : Leaves Q y) (h : ∀ s t, Q (view s) t → R s (put t s)) : Leaves R (zoom view put y) := by
  intro s r s' hx
  obtain ⟨⟨r', t⟩, hrun, ⟨⟩⟩ := Option.map_eq_some_iff.mp hx
  exact h s t (hy _ _ _ hrun)

end PartialRules

end Prog
