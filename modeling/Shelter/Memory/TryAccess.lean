import Shelter.Memory.FlatMemory

/-!
# Piecewise access

`try_access` walks a range of guest memory from region to region and hands each piece to a callback,
which says how much of it was processed; the rest is handed out again. The callback may also fail or
never return. `reachable` are the bytes the walk can come to: those before the first hole, where the
address after the last one is 0.

The method is not part of this repository. What the callers rely on are its two laws: what every
processed piece preserves holds where the walk ends, which it does in one of four ways; and it ends
if the callback does. `FlatMemory` has a loop that meets them.
-/

open Bytes

namespace Shelter

open LawfulGuestMemory Nat

variable {M : Type} [GuestMemory M] {σ : Type}

def reachable (m : M) : ℕ → ℕ → List Byte
  | _, 0 => []
  | a, n + 1 =>
    if addressInRange m a then byte m a :: reachable m ((a + 1) % 2 ^ 64) n else []

/-- How a walk that has processed `total` bytes and stands at `cur` ends. -/
inductive AccessEnd (m : M) (f : σ → ℕ → ℕ → Option (Option ℕ × σ)) (count : ℕ) :
    ℕ → ℕ → σ → Option ℕ × σ → Prop
  | failed {total cur : ℕ} {s s' : σ} {r : Region} (hr : findRegion m cur = some r)
      (hlt : total < count ∨ total = 0)
      (hf : f s (min (r.start + r.len - cur) (count - total)) cur = some (none, s')) :
      AccessEnd m f count total cur s (none, s')
  | stopped {total cur : ℕ} {s s' : σ} {r : Region} (hr : findRegion m cur = some r)
      (hlt : total < count ∨ total = 0)
      (hf : f s (min (r.start + r.len - cur) (count - total)) cur = some (some 0, s')) :
      AccessEnd m f count total cur s (some total, s')
  | hole {total cur : ℕ} {s : σ} (hr : findRegion m cur = none) (hlt : total < count ∨ total = 0) :
      AccessEnd m f count total cur s (if total = 0 then none else some total, s)
  | full {cur : ℕ} {s : σ} (hpos : 0 < count) : AccessEnd m f count count cur s (some count, s)

/-- `try_access`, with the callback, the length of the range and its address. The callback gets the
length and the address of a piece; `none` means that it does not return, an inner `none` is its
error. -/
class TryAccess (M : Type) [GuestMemory M] where
  tryAccess {σ : Type} : M → (σ → ℕ → ℕ → Option (Option ℕ × σ)) → ℕ → ℕ → σ →
    Option (Option ℕ × σ)

export TryAccess (tryAccess)

class LawfulTryAccess (M : Type) [GuestMemory M] [TryAccess M] : Prop where
  tryAccess_cases {σ : Type} {m : M} {f : σ → ℕ → ℕ → Option (Option ℕ × σ)} {count addr : ℕ}
    {s : σ} {res : Option ℕ × σ} {P : ℕ → ℕ → σ → Prop} :
    (∀ total cur s r k s', P total cur s → findRegion m cur = some r →
      f s (min (r.start + r.len - cur) (count - total)) cur = some (some k, s') →
      k ≤ min (r.start + r.len - cur) (count - total) ∧
        (0 < k → P (total + k) ((cur + k) % 2 ^ 64) s')) →
    P 0 addr s → tryAccess m f count addr s = some res →
    ∃ total cur s', P total cur s' ∧ AccessEnd m f count total cur s' res
  /-- `μ` counts how often the callback returns. -/
  tryAccess_returns {σ : Type} {m : M} {f : σ → ℕ → ℕ → Option (Option ℕ × σ)} {count addr : ℕ}
    {s : σ} {μ : σ → ℕ} :
    (∀ s len cur, 0 < μ s → ∃ k s', f s len cur = some (k, s') ∧ μ s ≤ μ s' + 1) →
    count < μ s → ∃ k s', tryAccess m f count addr s = some (k, s') ∧ μ s ≤ μ s' + count + 1

export LawfulTryAccess (tryAccess_cases tryAccess_returns)

section Reachable

theorem length_reachable_le (m : M) (a n : ℕ) : (reachable m a n).length ≤ n := by
  induction n generalizing a with
  | zero => exact le_refl 0
  | succ n ih =>
    rw [reachable]
    split_ifs
    · exact succ_le_succ (ih _)
    · exact zero_le _

variable {m : M} {a n : ℕ}

theorem reachable_hole (h : findRegion m a = none) (n : ℕ) : reachable m a n = [] := by
  cases n with
  | zero => rfl
  | succ n =>
    rw [reachable, addressInRange, h]
    rfl

theorem reachable_ne_nil (h : addressInRange m a = true) (hn : 0 < n) : reachable m a n ≠ [] := by
  obtain ⟨n, rfl⟩ := exists_eq_succ_of_ne_zero hn.ne'
  rw [reachable, if_pos h]
  exact List.cons_ne_nil _ _

theorem reachable_split [LawfulGuestMemory M] {k : ℕ} {r : Region} (hr : findRegion m a = some r)
    (hk : k ≤ min (r.start + r.len - a) n) :
    reachable m a n = bytesAt m a k ++ reachable m ((a + k) % 2 ^ 64) (n - k) := by
  have hbound := find_bound hr
  have hmem := find_contains hr
  have hlow := hmem.1
  have hhigh := hmem.2
  induction k with
  | zero =>
    rw [add_zero, mod_eq_of_lt (by omega)]
    rfl
  | succ k ih =>
    -- the byte at `a + k` is still in the region
    have hin : addressInRange m (a + k) = true :=
      addressInRange_iff.mpr ⟨r, find_of_contains hr ⟨by omega, by omega⟩⟩
    rw [ih (by omega), bytesAt_append m a k 1, List.append_assoc, mod_eq_of_lt (by omega)]
    congr 1
    obtain ⟨j, hj⟩ : ∃ j, n - k = j + 1 := ⟨n - k - 1, by omega⟩
    rw [hj, reachable, if_pos hin, show n - (k + 1) = j by omega]
    rfl

end Reachable

/-! ## A loop -/

namespace FlatMemory

/-- A walk that has processed `total` bytes and stands at `cur`. -/
def walk (m : FlatMemory) (f : σ → ℕ → ℕ → Option (Option ℕ × σ)) (count : ℕ) :
    ℕ → ℕ → ℕ → σ → Option (Option ℕ × σ)
  | 0, total, _, s => some (some total, s)
  | fuel + 1, total, cur, s =>
    match findRegion m cur with
    | none => some (if total = 0 then none else some total, s)
    | some r =>
      match f s (min (r.start + r.len - cur) (count - total)) cur with
      | none => none
      | some (none, s') => some (none, s')
      | some (some k, s') =>
        -- no more data
        if k = 0 then some (some total, s')
        else if total + k = count then some (some count, s')
        else if count < total + k then some (none, s')
        else if 2 ^ 64 < cur + k then some (none, s')
        else walk m f count fuel (total + k) ((cur + k) % 2 ^ 64) s'

/-- A piece that counts has a byte, so `count + 1` rounds are enough. -/
instance : TryAccess FlatMemory where
  tryAccess m f count addr s := walk m f count (count + 1) 0 addr s

variable {m : FlatMemory} {f : σ → ℕ → ℕ → Option (Option ℕ × σ)} {count : ℕ} {fuel total cur : ℕ}
  {s : σ}

theorem walk_cases {P : ℕ → ℕ → σ → Prop}
    (hstep : ∀ total cur s r k s', P total cur s → findRegion m cur = some r →
      f s (min (r.start + r.len - cur) (count - total)) cur = some (some k, s') →
      k ≤ min (r.start + r.len - cur) (count - total) ∧
        (0 < k → P (total + k) ((cur + k) % 2 ^ 64) s'))
    (h : P total cur s) (hlt : total < count ∨ total = 0) (hfuel : count - total < fuel)
    {res : Option ℕ × σ} (hres : walk m f count fuel total cur s = some res) :
    ∃ total' cur' s', P total' cur' s' ∧ AccessEnd m f count total' cur' s' res := by
  induction fuel generalizing total cur s with
  | zero => omega
  | succ fuel ih =>
    rw [walk] at hres
    rcases hr : findRegion m cur with _ | r <;> simp only [hr] at hres
    · cases hres
      exact ⟨total, cur, s, h, .hole hr hlt⟩
    rcases hf : f s (min (r.start + r.len - cur) (count - total)) cur with _ | ⟨_ | k, s'⟩ <;>
      simp only [hf] at hres
    · cases hres
    · cases hres
      exact ⟨total, cur, s, h, .failed hr hlt hf⟩
    obtain ⟨hk, hP⟩ := hstep total cur s r k s' h hr hf
    have hbound := find_bound hr
    by_cases hzero : k = 0
    · subst hzero
      cases hres
      exact ⟨total, cur, s, h, .stopped hr hlt hf⟩
    rw [if_neg hzero] at hres
    have hP' := hP (pos_of_ne_zero hzero)
    by_cases hall : total + k = count
    · cases (if_pos hall).symm.trans hres
      rw [hall] at hP'
      exact ⟨count, _, s', hP', .full (by omega)⟩
    · rw [if_neg hall, if_neg (by omega), if_neg (by omega)] at hres
      exact ih hP' (.inl (by omega)) (by omega) hres

theorem walk_returns {μ : σ → ℕ}
    (hf : ∀ s len cur, 0 < μ s → ∃ k s', f s len cur = some (k, s') ∧ μ s ≤ μ s' + 1)
    (hμ : count - total < μ s) :
    ∃ k s', walk m f count fuel total cur s = some (k, s') ∧
      μ s ≤ μ s' + (count - total) + 1 := by
  induction fuel generalizing total cur s with
  | zero => exact ⟨_, s, rfl, by omega⟩
  | succ fuel ih =>
    rw [walk]
    cases hr : findRegion m cur with
    | none => exact ⟨_, s, rfl, by omega⟩
    | some r =>
      obtain ⟨k, s', hk, hle⟩ :=
        hf s (min (r.start + r.len - cur) (count - total)) cur (by omega)
      simp only [hk]
      cases k with
      | none => exact ⟨none, s', rfl, by omega⟩
      | some k =>
        simp only
        split_ifs
        · exact ⟨some total, s', rfl, by omega⟩
        · exact ⟨some count, s', rfl, by omega⟩
        · exact ⟨none, s', rfl, by omega⟩
        · exact ⟨none, s', rfl, by omega⟩
        · obtain ⟨k', s'', he, hle'⟩ := @ih (total + k) ((cur + k) % 2 ^ 64) s' (by omega)
          exact ⟨k', s'', he, by omega⟩

instance : LawfulTryAccess FlatMemory where
  tryAccess_cases hstep h hres := walk_cases hstep h (.inr rfl) (by omega) hres
  tryAccess_returns hf hμ := walk_returns hf hμ

end FlatMemory

end Shelter
