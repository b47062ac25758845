import Mathlib.Tactic.Common

/-!
# Sets of terminated strings

A set of strings is stored as the strings one after the other, each with a terminator `z`, and one
more terminator. `afterEnd` finds the end of such a set, at the first two terminators in a row, and
`nth` walks to a string of it, as long as there is one. Both agree with `encode` if no string is
empty; an empty string looks like the end (`nth_encode_empty`).
-/

namespace StringSet

open List

section Encode

variable {α : Type*} (z : α)

def encode (strings : List (List α)) : List α := strings.flatMap fun s => s ++ [z]

@[simp] theorem encode_nil : encode z [] = [] := rfl

@[simp] theorem encode_cons (s : List α) (strings : List (List α)) :
    encode z (s :: strings) = s ++ z :: encode z strings := by
  simp [encode]

end Encode

variable {α : Type*} [DecidableEq α] (z : α)

def afterEnd : List α → Option (List α)
  | [] => none
  | a :: rest => if a = z ∧ rest.head? = some z then some rest.tail else afterEnd rest

/-- The string with this number; there is none where a terminator stands in place of its start. -/
def nth : ℕ → List α → Option (List α)
  | _, [] => none
  | 0, a :: l => if a = z then none else some ((a :: l).takeWhile fun b => decide (b ≠ z))
  | n + 1, a :: l =>
    if a = z then none else nth n ((a :: l).dropWhile fun b => decide (b ≠ z)).tail

variable {z} {s : List α} {strings : List (List α)} {n : ℕ}

theorem afterEnd_append (hs : z ∉ s) (l : List α) : afterEnd z (s ++ l) = afterEnd z l := by
  induction s with
  | nil => rfl
  | cons a s ih =>
    have hne : ¬ (a = z ∧ (s ++ l).head? = some z) := fun h => hs (h.1 ▸ mem_cons_self)
    rw [cons_append, afterEnd, if_neg hne, ih fun h => hs (mem_cons_of_mem _ h)]

theorem afterEnd_encode (hz : ∀ t ∈ s :: strings, z ∉ t) (hne : ∀ t ∈ s :: strings, t ≠ [])
    (rest : List α) : afterEnd z (encode z (s :: strings) ++ z :: rest) = some rest := by
  induction strings generalizing s with
  | nil =>
    rw [encode_cons, append_assoc, afterEnd_append (hz s mem_cons_self)]
    simp [afterEnd]
  | cons t strings ih =>
    have htail : z ∉ t ∧ t ≠ [] :=
      ⟨hz t (by simp), hne t (by simp)⟩
    rw [encode_cons, append_assoc, afterEnd_append (hz s mem_cons_self),
      cons_append, afterEnd, if_neg, ih]
    · exact fun u hu => hz u (mem_cons_of_mem _ hu)
    · exact fun u hu => hne u (mem_cons_of_mem _ hu)
    · -- the next string starts with something else than a terminator
      rintro ⟨_, hhead⟩
      obtain ⟨a, t', rfl⟩ := exists_cons_of_ne_nil htail.2
      exact htail.1 (Option.some.inj hhead ▸ mem_cons_self)

theorem takeWhile_append (hs : z ∉ s) (l : List α) :
    (s ++ z :: l).takeWhile (fun b => decide (b ≠ z)) = s := by
  rw [takeWhile_append_of_pos]
  · simp
  · intro b hb
    simpa using fun h : b = z => hs (h ▸ hb)

theorem dropWhile_append (hs : z ∉ s) (l : List α) :
    (s ++ z :: l).dropWhile (fun b => decide (b ≠ z)) = z :: l := by
  rw [dropWhile_append_of_pos]
  · simp
  · intro b hb
    simpa using fun h : b = z => hs (h ▸ hb)

theorem nth_encode (hz : ∀ t ∈ strings, z ∉ t) (hne : ∀ t ∈ strings, t ≠ []) (rest : List α)
    (hn : strings[n]? = some s) : nth z n (encode z strings ++ rest) = some s := by
  induction strings generalizing n with
  | nil => simp at hn
  | cons t strings ih =>
    have ht : z ∉ t := hz t mem_cons_self
    obtain ⟨a, t', rfl⟩ := exists_cons_of_ne_nil (hne t mem_cons_self)
    have ha : a ≠ z := fun h => ht (h ▸ mem_cons_self)
    rw [encode_cons, append_assoc, cons_append, cons_append]
    cases n with
    | zero =>
      rw [nth, if_neg ha, ← cons_append, takeWhile_append ht]
      simpa using hn
    | succ n =>
      rw [nth, if_neg ha, ← cons_append, dropWhile_append ht, tail_cons]
      refine ih (fun u hu => hz u (mem_cons_of_mem _ hu))
        (fun u hu => hne u (mem_cons_of_mem _ hu)) ?_
      simpa using hn

theorem nth_encode_empty (hz : ∀ t ∈ strings, z ∉ t) (rest : List α) (hn : strings[n]? = some []) :
    nth z n (encode z strings ++ rest) = none := by
  induction strings generalizing n with
  | nil => simp at hn
  | cons t strings ih =>
    rw [encode_cons, append_assoc]
    cases t with
    | nil =>
      -- the walk stops at the first empty string, if not before
      cases n <;> simp [nth]
    | cons a t =>
      have ht : z ∉ a :: t := hz _ mem_cons_self
      have ha : a ≠ z := fun h => ht (h ▸ mem_cons_self)
      cases n with
      | zero => simp at hn
      | succ n =>
        rw [cons_append, cons_append, nth, if_neg ha, ← cons_append,
          dropWhile_append ht, tail_cons]
        refine ih (fun u hu => hz u (mem_cons_of_mem _ hu)) ?_
        simpa using hn

end StringSet
