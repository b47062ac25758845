import Mathlib.Logic.Function.Basic
import Mathlib.Tactic.Common

/-!
# Stores in order

`storeAll f as bs` is the map `f` after a store of each of `bs` at the key that `as` has for it, one
after the other. A key may occur more than once; the last store to it is the one that counts.
-/

namespace Stores

open List

variable {α β : Type*} [DecidableEq α]

def storeAll (f : α → β) : List α → List β → α → β
  | a :: as, b :: bs => storeAll (Function.update f a b) as bs
  | _, _ => f

@[simp] theorem storeAll_nil_left (f : α → β) (bs : List β) : storeAll f [] bs = f := by
  cases bs <;> rfl

@[simp] theorem storeAll_nil_right (f : α → β) (as : List α) : storeAll f as [] = f := by
  cases as <;> rfl

variable {as : List α} {bs : List β}

theorem storeAll_append (h : bs.length = as.length) (f : α → β) (as' : List α) (bs' : List β) :
    storeAll f (as ++ as') (bs ++ bs') = storeAll (storeAll f as bs) as' bs' := by
  induction as generalizing bs f with
  | nil =>
    obtain rfl := length_eq_zero_iff.mp h
    simp
  | cons a as ih =>
    cases bs with
    | nil => simp at h
    | cons b bs => exact ih (by simpa using h) (Function.update f a b)

theorem storeAll_of_notMem {x : α} (hx : x ∉ as) (f : α → β) (bs : List β) :
    storeAll f as bs x = f x := by
  induction as generalizing bs f with
  | nil => simp
  | cons a as ih =>
    cases bs with
    | nil => simp
    | cons b bs =>
      rw [mem_cons, not_or] at hx
      rw [storeAll, ih hx.2, Function.update_of_ne hx.1]

theorem map_storeAll (h : bs.length = as.length) (hnodup : as.Nodup) (f : α → β) :
    as.map (storeAll f as bs) = bs := by
  induction as generalizing bs f with
  | nil =>
    obtain rfl := length_eq_zero_iff.mp h
    rfl
  | cons a as ih =>
    cases bs with
    | nil => simp at h
    | cons b bs =>
      obtain ⟨ha, hrest⟩ := nodup_cons.mp hnodup
      have htail := ih (by simpa using h) hrest (Function.update f a b)
      rw [map_cons, storeAll, htail, storeAll_of_notMem ha, Function.update_self]

/-- Two maps that agree on what was stored, and elsewhere with `f`, are the same. -/
theorem eq_storeAll (hnodup : as.Nodup) {f g : α → β} (hmap : as.map g = bs)
    (hframe : ∀ x ∉ as, g x = f x) : g = storeAll f as bs := by
  have hlen : bs.length = as.length := by rw [← hmap, length_map]
  funext x
  by_cases hx : x ∈ as
  · have hboth : as.map g = as.map (storeAll f as bs) := by rw [hmap, map_storeAll hlen hnodup]
    exact map_inj_left.mp hboth x hx
  · rw [hframe x hx, storeAll_of_notMem hx]

end Stores
