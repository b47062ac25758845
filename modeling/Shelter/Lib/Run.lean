import Mathlib.Tactic.Common

/-!
# Runs of a partial step function

A machine is a step function `S → E → Option S`; `none` is a crash, after which nothing happens.
`run` takes a list of events. `Along C` says that every step of a run is taken under `C`, a
condition on the state before the step and the event, and `along_invariant` is the induction that
every safety result uses. `observe` lists what an observer sees of a run; machines related by a
simulation are seen alike (`observe_eq_of_sim`).
-/

namespace Run

/-- What a run on fixed inputs ends in can be computed. -/
instance (priority := low) decidableExistsEqSome {α : Type*} {o : Option α} {P : α → Prop}
    [DecidablePred P] : Decidable (∃ a, o = some a ∧ P a) :=
  inferInstanceAs (Decidable (∃ a ∈ o, P a))

theorem forall_mem_snoc {α : Type*} {P : α → Prop} {l : List α} {a : α} (hl : ∀ x ∈ l, P x)
    (ha : P a) : ∀ x ∈ l ++ [a], P x :=
  List.forall_mem_append.mpr ⟨hl, List.forall_mem_singleton.mpr ha⟩

variable {S E O : Type*} (step : S → E → Option S)

def run : S → List E → Option S
  | s, [] => some s
  | s, e :: es => (step s e).bind fun s' => run s' es

/-- Every step of the run is taken under `C`. -/
def Along (C : S → E → Prop) : S → List E → Prop
  | _, [] => True
  | s, e :: es => C s e ∧ ∀ s', step s e = some s' → Along C s' es

/-- Some step of the run is taken under `C`. -/
def Occurs (C : S → E → Prop) (s : S) (es : List E) : Prop :=
  ∃ es₁ e es₂ t, es = es₁ ++ e :: es₂ ∧ run step s es₁ = some t ∧ C t e

def observe (obs : S → E → O) : S → List E → List O
  | _, [] => []
  | s, e :: es =>
    obs s e ::
      match step s e with
      | some s' => observe obs s' es
      | none => []

variable {step}

@[simp] theorem run_nil (s : S) : run step s [] = some s := rfl

theorem run_cons (s : S) (e : E) (es : List E) :
    run step s (e :: es) = (step s e).bind fun s' => run step s' es := rfl

theorem run_append (s : S) (es es' : List E) :
    run step s (es ++ es') = (run step s es).bind fun s' => run step s' es' := by
  induction es generalizing s with
  | nil => rfl
  | cons e es ih =>
    rw [List.cons_append, run_cons, run_cons]
    cases step s e with
    | none => rfl
    | some s' => exact ih s'

theorem run_snoc (s : S) (es : List E) (e : E) :
    run step s (es ++ [e]) = (run step s es).bind fun s' => step s' e := by
  rw [run_append]
  cases run step s es with
  | none => rfl
  | some s' =>
    show (step s' e).bind some = step s' e
    cases step s' e <;> rfl

variable {C D : S → E → Prop} {s s' : S} {es : List E} {P : S → Prop} {A : Type*} {R : S → S → Prop}

theorem along_append {es' : List E} :
    Along step C s (es ++ es') ↔
      Along step C s es ∧ ∀ s', run step s es = some s' → Along step C s' es' := by
  induction es generalizing s with
  | nil => simp [Along]
  | cons e es ih =>
    simp only [List.cons_append, Along, run_cons, ih, and_assoc, Option.bind_eq_some_iff]
    constructor
    · rintro ⟨hc, h⟩
      exact ⟨hc, fun s' hs => (h s' hs).1, fun s'' ⟨s', hs, hr⟩ => (h s' hs).2 s'' hr⟩
    · rintro ⟨hc, h₁, h₂⟩
      exact ⟨hc, fun s' hs => ⟨h₁ s' hs, fun s'' hr => h₂ s'' ⟨s', hs, hr⟩⟩⟩

theorem not_occurs_nil (C : S → E → Prop) (s : S) : ¬ Occurs step C s [] := by
  rintro ⟨es₁, e, es₂, t, he, _⟩
  simp at he

theorem occurs_snoc {e : E} :
    Occurs step C s (es ++ [e]) ↔
      Occurs step C s es ∨ ∃ t, run step s es = some t ∧ C t e := by
  constructor
  · rintro ⟨es₁, b, es₂, t, he, ht, hc⟩
    rcases List.eq_nil_or_concat es₂ with rfl | ⟨es₂', c, rfl⟩
    · obtain ⟨rfl, rfl⟩ : es = es₁ ∧ e = b := by simpa using List.append_inj' he rfl
      exact .inr ⟨t, ht, hc⟩
    · have he' : es ++ [e] = (es₁ ++ b :: es₂') ++ [c] := by simpa using he
      obtain ⟨rfl, _⟩ := List.append_inj' he' rfl
      exact .inl ⟨es₁, b, es₂', t, rfl, ht, hc⟩
  · rintro (⟨es₁, b, es₂, t, rfl, h⟩ | ⟨t, ht, hc⟩)
    · exact ⟨es₁, b, es₂ ++ [e], t, by simp, h⟩
    · exact ⟨es, e, [], t, by simp, ht, hc⟩

theorem Along.mono (h : ∀ s e, C s e → D s e) (hc : Along step C s es) : Along step D s es := by
  induction es generalizing s with
  | nil => trivial
  | cons e es ih => exact ⟨h s e hc.1, fun s' hs => ih (hc.2 s' hs)⟩

theorem Along.and (hc : Along step C s es) (hd : Along step D s es) :
    Along step (fun s e => C s e ∧ D s e) s es := by
  induction es generalizing s with
  | nil => trivial
  | cons e es ih => exact ⟨⟨hc.1, hd.1⟩, fun s' hs => ih (hc.2 s' hs) (hd.2 s' hs)⟩

instance decidableAlong {C : S → E → Prop} [∀ s e, Decidable (C s e)] :
    ∀ s es, Decidable (Along step C s es)
  | _, [] => isTrue trivial
  | s, e :: es =>
    match h : step s e with
    | none =>
      decidable_of_iff (C s e) ⟨fun hc => ⟨hc, fun s' hs => by simp [h] at hs⟩, fun hc => hc.1⟩
    | some s' =>
      have := decidableAlong (C := C) s' es
      decidable_of_iff (C s e ∧ Along step C s' es)
        ⟨fun hc => ⟨hc.1, fun s'' hs => Option.some.inj (h.symm.trans hs) ▸ hc.2⟩,
          fun hc => ⟨hc.1, hc.2 s' h⟩⟩

/-- What every step under `C` preserves holds after every run under `C`. -/
theorem along_invariant (hstep : ∀ s e s', P s → C s e → step s e = some s' → P s') (h : P s)
    (hc : Along step C s es) (hr : run step s es = some s') : P s' := by
  induction es generalizing s with
  | nil => exact Option.some.inj hr ▸ h
  | cons e es ih =>
    obtain ⟨s₁, hs, hr⟩ := Option.bind_eq_some_iff.mp hr
    exact ih (hstep s e s₁ h hc.1 hs) (hc.2 s₁ hs) hr

theorem along_true (s : S) (es : List E) : Along step (fun _ _ => True) s es := by
  induction es generalizing s with
  | nil => trivial
  | cons e es ih => exact ⟨trivial, fun s' _ => ih s'⟩

theorem run_invariant (hstep : ∀ s e s', P s → step s e = some s' → P s') (h : P s)
    (hr : run step s es = some s') : P s' :=
  along_invariant (fun s e s' hs _ => hstep s e s' hs) h (along_true s es) hr

/-- A machine that can always go on from the states of an invariant never crashes. -/
theorem run_total (hstep : ∀ s e, P s → ∃ s', step s e = some s' ∧ P s') (h : P s) (es : List E) :
    ∃ s', run step s es = some s' ∧ P s' := by
  induction es generalizing s with
  | nil => exact ⟨s, rfl, h⟩
  | cons e es ih =>
    obtain ⟨s₁, hs, h₁⟩ := hstep s e h
    obtain ⟨s', hr, h'⟩ := ih h₁
    exact ⟨s', by rw [run_cons, hs]; exact hr, h'⟩

/-- What holds at every step that is taken from a state of an invariant holds along the run. -/
theorem along_of_invariant (hstep : ∀ s e s', P s → C s e → step s e = some s' → P s' ∧ D s e)
    (h : P s) (hc : Along step C s es) (hr : run step s es = some s') : Along step D s es := by
  induction es generalizing s with
  | nil => trivial
  | cons e es ih =>
    obtain ⟨s₁, hs, hr⟩ := Option.bind_eq_some_iff.mp hr
    obtain ⟨h₁, hd⟩ := hstep s e s₁ h hc.1 hs
    refine ⟨hd, fun s₂ hs₂ => ?_⟩
    cases hs.symm.trans hs₂
    exact ih h₁ (hc.2 s₁ hs) hr

/-- Conditions that say the same in the states of an invariant say the same of a run. -/
theorem along_congr (hiff : ∀ s e, P s → (C s e ↔ D s e))
    (hstep : ∀ s e s', P s → C s e → step s e = some s' → P s') (h : P s) (es : List E) :
    Along step C s es ↔ Along step D s es := by
  induction es generalizing s with
  | nil => exact Iff.rfl
  | cons e es ih =>
    constructor
    · intro hc
      exact ⟨(hiff s e h).mp hc.1, fun s' hs => (ih (hstep s e s' h hc.1 hs)).mp (hc.2 s' hs)⟩
    · intro hd
      have hc := (hiff s e h).mpr hd.1
      exact ⟨hc, fun s' hs => (ih (hstep s e s' h hc hs)).mpr (hd.2 s' hs)⟩

/-- What relates every state of a run under `C` to the one before it. -/
theorem along_reach {R : S → E → S → Prop}
    (hstep : ∀ s e s', P s → C s e → step s e = some s' → P s' ∧ R s e s') (h : P s)
    (hc : Along step C s es) :
    Along step (fun s e => ∀ s', step s e = some s' → R s e s') s es := by
  induction es generalizing s with
  | nil => trivial
  | cons e es ih =>
    exact ⟨fun s' hs => (hstep s e s' h hc.1 hs).2, fun s' hs =>
      ih (hstep s e s' h hc.1 hs).1 (hc.2 s' hs)⟩

/-- A number that every step under `C` raises by one at the events in `w`, and keeps at the others,
counts these events in a run under `C`. -/
theorem along_countP {f : S → ℕ} {w : E → Bool}
    (hstep : ∀ s e s', P s → C s e → step s e = some s' → P s' ∧ f s' = f s + if w e then 1 else 0)
    (h : P s) (hc : Along step C s es) (hr : run step s es = some s') :
    f s' = f s + es.countP w := by
  induction es generalizing s with
  | nil => rw [← Option.some.inj hr]; rfl
  | cons e es ih =>
    obtain ⟨s₁, hs, hr⟩ := Option.bind_eq_some_iff.mp hr
    obtain ⟨h₁, hf⟩ := hstep s e s₁ h hc.1 hs
    rw [ih h₁ (hc.2 s₁ hs) hr, hf, List.countP_cons]
    omega

theorem rel_map {B : Type*} {Q : A → B → Prop} {f : S → A} {g : S → B} {x y : Option S}
    (h : Option.Rel R x y) (hf : ∀ s t, R s t → Q (f s) (g t)) :
    Option.Rel Q (x.map f) (y.map g) := by
  cases h with
  | none => exact .none
  | some h => exact .some (hf _ _ h)

theorem eq_of_rel {x y : Option A} (h : Option.Rel Eq x y) : x = y := by
  cases h with
  | none => rfl
  | some h => rw [h]

/-- States related by a simulation that the observer cannot tell apart at any step are seen
alike in every run. -/
theorem observe_eq_of_sim {obs : S → E → O} (hobs : ∀ s t e, R s t → obs s e = obs t e)
    (hstep : ∀ s t e, R s t → Option.Rel R (step s e) (step t e)) {t : S} (h : R s t)
    (es : List E) : observe step obs s es = observe step obs t es := by
  induction es generalizing s t with
  | nil => rfl
  | cons e es ih =>
    unfold observe
    rw [hobs s t e h]
    -- either both crash or the results are related again
    have hr := hstep s t e h
    generalize step s e = x, step t e = y at hr
    cases hr with
    | none => rfl
    | some hr => exact congrArg _ (ih hr)

theorem count_next {c k n : ℕ} (h : c = if k < n then 1 else 0) :
    c + [n].count k = if k < n + 1 then 1 else 0 := by
  simp only [h, List.count_singleton, beq_iff_eq]
  split_ifs <;> omega

end Run
