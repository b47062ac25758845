import Mathlib.Logic.Function.Basic

/-!
# Tickets

Tickets are handed out, each for a value, and taken back. A history says which ones; a table that
follows it holds the tickets that are out (`Tracks`), as long as a ticket that is handed out is a
new one.
-/

namespace Tickets

variable {H V : Type*}

inductive Event (H V : Type*)
  | issued (ticket : H) (value : V)
  | returned (ticket : H)
  deriving DecidableEq, Repr

/-- The ticket was handed out for the value, and has not been taken back since. -/
def Live (history : List (Event H V)) (ticket : H) (value : V) : Prop :=
  ∃ before after, history = before ++ .issued ticket value :: after ∧ .returned ticket ∉ after

def issues : List (Event H V) → List H
  | [] => []
  | .issued ticket _ :: history => ticket :: issues history
  | .returned _ :: history => issues history

theorem issues_append (history history' : List (Event H V)) :
    issues (history ++ history') = issues history ++ issues history' := by
  induction history with
  | nil => rfl
  | cons e history ih => cases e <;> simp [issues, ih]

theorem not_live_nil (ticket : H) (value : V) : ¬ Live [] ticket value := by
  rintro ⟨before, after, h, -⟩
  simp at h

theorem live_snoc {history : List (Event H V)} {e : Event H V} {ticket : H} {value : V} :
    Live (history ++ [e]) ticket value ↔
      e = .issued ticket value ∨ e ≠ .returned ticket ∧ Live history ticket value := by
  constructor
  · rintro ⟨before, after, h, hret⟩
    rcases List.eq_nil_or_concat after with rfl | ⟨after, e', rfl⟩
    · exact .inl (by simpa using (List.append_inj' h rfl).2)
    · have h' : history ++ [e] = (before ++ .issued ticket value :: after) ++ [e'] := by
        simpa using h
      obtain ⟨hh, he⟩ := List.append_inj' h' rfl
      cases he
      simp only [List.concat_eq_append, List.mem_append, List.mem_singleton, not_or] at hret
      exact .inr ⟨fun he => hret.2 he.symm, before, after, hh, hret.1⟩
  · rintro (rfl | ⟨hne, before, after, rfl, hret⟩)
    · exact ⟨history, [], rfl, by simp⟩
    · exact ⟨before, after ++ [e], by simp, by simpa [hret] using fun h => hne h.symm⟩

theorem Live.mem_issues {history : List (Event H V)} {ticket : H} {value : V}
    (h : Live history ticket value) : ticket ∈ issues history := by
  obtain ⟨before, after, rfl, -⟩ := h
  simp [issues_append, issues]

def Tracks (table : H → Option V) (history : List (Event H V)) : Prop :=
  ∀ ticket value, table ticket = some value ↔ Live history ticket value

theorem tracks_nil : Tracks (fun _ : H => (none : Option V)) [] := fun ticket value =>
  ⟨nofun, fun h => absurd h (not_live_nil ticket value)⟩

variable [DecidableEq H] {table : H → Option V} {history : List (Event H V)}

theorem Tracks.issue (h : Tracks table history) {ticket : H} (hnew : ticket ∉ issues history)
    (value : V) : Tracks (Function.update table ticket (some value))
      (history ++ [.issued ticket value]) := by
  intro t v
  rw [live_snoc]
  by_cases ht : t = ticket
  · subst ht
    rw [Function.update_self]
    constructor
    · rintro ⟨⟩
      exact .inl rfl
    · rintro (he | ⟨-, hlive⟩)
      · cases he
        rfl
      · exact absurd hlive.mem_issues hnew
  · rw [Function.update_of_ne ht, h t v]
    simp [Ne.symm ht]

theorem Tracks.return (h : Tracks table history) (ticket : H) :
    Tracks (Function.update table ticket none) (history ++ [.returned ticket]) := by
  intro t v
  rw [live_snoc]
  by_cases ht : t = ticket
  · subst ht
    simp
  · rw [Function.update_of_ne ht, h t v]
    simp [Ne.symm ht]

end Tickets
