import Mathlib.Data.List.Nodup
import Shelter.Lib.Run
import Shelter.Memory.GuestMemory

/-!
# The reaper of released proxies

A proxy that is released stays in the proxy map for `TIMEOUT`. The reaper thread takes the ids of
the released proxies from a channel, and before each wait it removes those whose time is up. It
waits as long as the oldest of the others has left; the highest age it found is 0 when there is
none, and then it waits without end. An age of 0 is taken for that as well.
-/

namespace Shelter.Vsock

open List Run

/-- `TIMEOUT`, in nanoseconds. -/
def reapTimeout : ℕ := 5 * 10 ^ 9

/-- `Duration::MAX`, in nanoseconds. -/
def durationMax : ℕ := (2 ^ 64 - 1) * 10 ^ 9 + 999999999

/-- The two maps of the reaper: the ids of the proxies, and when each id was released. -/
structure ReaperThread where
  proxyMap : List U64
  releasedMap : List (U64 × ℕ)
  deriving DecidableEq, Repr

namespace ReaperThread

variable {r : ReaperThread}

def new (proxyMap : List U64) : ReaperThread := ⟨proxyMap, []⟩

/-- One turn of the loop over the released map. -/
def scanEntry (now : ℕ) (acc : ℕ × List U64) (entry : U64 × ℕ) : ℕ × List U64 :=
  let elapsed := now - entry.2
  if reapTimeout ≤ elapsed then (acc.1, acc.2 ++ [entry.1])
  else if acc.1 < elapsed then (elapsed, acc.2)
  else acc

/-- `order` is the order in which the released map is iterated. -/
def checkExpiration (r : ReaperThread) (order : List (U64 × ℕ)) (now : ℕ) :
    Option (ReaperThread × ℕ) :=
  let (highestElapsed, expired) := order.foldl (scanEntry now) (0, [])
  let r := ⟨r.proxyMap.filter (· ∉ expired), r.releasedMap.filter (·.1 ∉ expired)⟩
  if 0 < highestElapsed then
    -- the assertion, which also stands for the subtraction
    if highestElapsed < reapTimeout then some (r, reapTimeout - highestElapsed) else none
  else some (r, durationMax)

/-- What happens to the maps: an id comes from the channel, the map is checked, or another thread
changes the proxy map. -/
inductive Event
  | release (id : U64) (now : ℕ)
  | check (order : List (U64 × ℕ)) (now : ℕ)
  | proxies (ids : List U64)
  deriving DecidableEq, Repr

def step (r : ReaperThread) : Event → Option ReaperThread
  | .release id now =>
    some { r with releasedMap := (id, now) :: r.releasedMap.filter (·.1 ≠ id) }
  | .check order now => (r.checkExpiration order now).map Prod.fst
  | .proxies ids => some { r with proxyMap := ids }

/-- A check sees the entries of the map, in some order. -/
def Iterates (r : ReaperThread) : Event → Prop
  | .check order _ => order.Perm r.releasedMap
  | _ => True

/-! ## One check -/

theorem foldl_scanEntry (order : List (U64 × ℕ)) (now : ℕ) (acc : ℕ × List U64) :
    ∃ highest, order.foldl (scanEntry now) acc =
        (highest, acc.2 ++ (order.filter (reapTimeout ≤ now - ·.2)).map Prod.fst) ∧
      acc.1 ≤ highest ∧ (∀ e ∈ order, now - e.2 < reapTimeout → now - e.2 ≤ highest) ∧
      (highest = acc.1 ∨ ∃ e ∈ order, now - e.2 < reapTimeout ∧ now - e.2 = highest) := by
  induction order generalizing acc with
  | nil => exact ⟨acc.1, by simp⟩
  | cons e order ih =>
    obtain ⟨highest, hfold, hle, hmax, hatt⟩ := ih (scanEntry now acc e)
    refine ⟨highest, ?_⟩
    rw [foldl_cons, hfold]
    unfold scanEntry at hle hatt ⊢
    dsimp only at hle hatt ⊢
    simp only [forall_mem_cons, exists_mem_cons_iff]
    split_ifs at hle hatt ⊢ with hexp hhigh
    · exact ⟨by simp [hexp], hle, ⟨fun h => absurd h (by omega), hmax⟩, hatt.imp_right .inr⟩
    · refine ⟨by simp [hexp], by omega, ⟨fun _ => hle, hmax⟩, Or.inr ?_⟩
      exact hatt.imp (fun h => ⟨by omega, h.symm⟩) id
    · exact ⟨by simp [hexp], hle, ⟨fun _ => by omega, hmax⟩, hatt.imp_right .inr⟩

theorem checkExpiration_spec (hnodup : (r.releasedMap.map Prod.fst).Nodup)
    {order : List (U64 × ℕ)} (horder : order.Perm r.releasedMap) (now : ℕ) :
    ∃ r' timeout, r.checkExpiration order now = some (r', timeout) ∧
      r'.releasedMap = r.releasedMap.filter (now - ·.2 < reapTimeout) ∧
      r'.proxyMap =
        r.proxyMap.filter (fun id => ∀ e ∈ r.releasedMap, e.1 = id → now - e.2 < reapTimeout) ∧
      ((∀ e ∈ r'.releasedMap, timeout ≤ reapTimeout - (now - e.2)) ↔
        r'.releasedMap = [] ∨ ∃ e ∈ r'.releasedMap, e.2 < now) := by
  obtain ⟨highest, hfold, -, hmax, hatt⟩ := foldl_scanEntry order now (0, [])
  have hexpired : ∀ id, id ∉ [] ++ (order.filter (reapTimeout ≤ now - ·.2)).map Prod.fst ↔
      ∀ e ∈ r.releasedMap, e.1 = id → now - e.2 < reapTimeout := by
    intro id
    simp only [nil_append, mem_map, mem_filter, decide_eq_true_eq, horder.mem_iff]
    grind
  have hreleased : r.releasedMap.filter
      (·.1 ∉ [] ++ (order.filter (reapTimeout ≤ now - ·.2)).map Prod.fst) =
      r.releasedMap.filter (now - ·.2 < reapTimeout) := by
    refine filter_congr fun e he => ?_
    rw [decide_eq_decide, hexpired]
    refine ⟨fun h => h e he rfl, fun h e' he' heq => ?_⟩
    rwa [inj_on_of_nodup_map hnodup he' he heq]
  have hproxies : r.proxyMap.filter
      (· ∉ [] ++ (order.filter (reapTimeout ≤ now - ·.2)).map Prod.fst) =
      r.proxyMap.filter (fun id => ∀ e ∈ r.releasedMap, e.1 = id → now - e.2 < reapTimeout) :=
    filter_congr fun id _ => by rw [decide_eq_decide, hexpired]
  have hkept : ∀ e, e ∈ r.releasedMap.filter (now - ·.2 < reapTimeout) ↔
      e ∈ order ∧ now - e.2 < reapTimeout := by
    intro e
    simp [horder.mem_iff]
  unfold checkExpiration
  rw [hfold]
  dsimp only
  rw [hreleased, hproxies]
  split_ifs with hpos hlow
  · refine ⟨_, _, rfl, rfl, rfl, ?_⟩
    obtain ⟨e, he, hyoung, rfl⟩ := hatt.resolve_left hpos.ne'
    refine iff_of_true (fun e' he' => ?_) (Or.inr ⟨e, (hkept e).mpr ⟨he, hyoung⟩, by omega⟩)
    have := hmax e' ((hkept e').mp he').1 ((hkept e').mp he').2
    omega
  · -- the assertion does not fail
    obtain ⟨e, -, hyoung, rfl⟩ := hatt.resolve_left hpos.ne'
    exact absurd hyoung hlow
  · refine ⟨_, _, rfl, rfl, rfl, ?_⟩
    have hzero : ∀ e ∈ r.releasedMap.filter (now - ·.2 < reapTimeout), ¬ e.2 < now := by
      intro e he hlt
      have := hmax e ((hkept e).mp he).1 ((hkept e).mp he).2
      omega
    have hlong : ∀ n, ¬ durationMax ≤ reapTimeout - n := by
      intro n
      unfold durationMax reapTimeout
      omega
    cases hrest : r.releasedMap.filter (now - ·.2 < reapTimeout) with
    | nil => simp
    | cons e es =>
      rw [hrest] at hzero
      simp only [mem_cons, forall_eq_or_imp, hlong, false_and, reduceCtorEq, false_or, false_iff]
      rintro ⟨e', he', hlt⟩
      exact hzero e' (mem_cons.mpr he') hlt

/-! ## Runs -/

theorem step_nodup (e : Event) (h : (r.releasedMap.map Prod.fst).Nodup) (he : r.Iterates e) :
    ∃ r', r.step e = some r' ∧ (r'.releasedMap.map Prod.fst).Nodup := by
  cases e with
  | release id now =>
    refine ⟨_, rfl, ?_⟩
    rw [map_cons, nodup_cons]
    exact ⟨by simp, h.sublist (filter_sublist.map _)⟩
  | check order now =>
    obtain ⟨r', timeout, hcheck, hreleased, -⟩ := checkExpiration_spec h he now
    refine ⟨r', by rw [step, hcheck]; rfl, ?_⟩
    rw [hreleased]
    exact h.sublist (filter_sublist.map _)
  | proxies ids => exact ⟨_, rfl, h⟩

theorem run_nodup {es : List Event} (h : (r.releasedMap.map Prod.fst).Nodup)
    (hes : Along step Iterates r es) :
    ∃ r', run step r es = some r' ∧ (r'.releasedMap.map Prod.fst).Nodup := by
  induction es generalizing r with
  | nil => exact ⟨r, rfl, h⟩
  | cons e es ih =>
    obtain ⟨r₁, hr₁, h₁⟩ := step_nodup e h hes.1
    obtain ⟨r', hr', h'⟩ := ih h₁ (hes.2 r₁ hr₁)
    exact ⟨r', by rw [run_cons, hr₁]; exact hr', h'⟩

/-- **Reaping.** After every run, a check at any time removes from both maps exactly the released
ids whose time is up. The time it returns is at most what every remaining entry has left, if and
only if the time of all entries is up, or one of the others has an age above 0. -/
theorem check_expiration_iff (ids : List U64) (es : List Event)
    (hes : Along step Iterates (new ids) es) :
    ∃ r, run step (new ids) es = some r ∧
      ∀ order now, order.Perm r.releasedMap →
        ∃ r' timeout, r.checkExpiration order now = some (r', timeout) ∧
          (∀ e, e ∈ r'.releasedMap ↔ e ∈ r.releasedMap ∧ now - e.2 < reapTimeout) ∧
          (∀ id, id ∈ r'.proxyMap ↔
            id ∈ r.proxyMap ∧ ∀ e ∈ r.releasedMap, e.1 = id → now - e.2 < reapTimeout) ∧
          ((∀ e ∈ r'.releasedMap, timeout ≤ reapTimeout - (now - e.2)) ↔
            (∀ e ∈ r.releasedMap, reapTimeout ≤ now - e.2) ∨
              ∃ e ∈ r.releasedMap, 0 < now - e.2 ∧ now - e.2 < reapTimeout) := by
  obtain ⟨r, hr, hnodup⟩ := run_nodup (r := new ids) nodup_nil hes
  refine ⟨r, hr, fun order now horder => ?_⟩
  obtain ⟨r', timeout, hcheck, hreleased, hproxies, htimeout⟩ :=
    checkExpiration_spec hnodup horder now
  refine ⟨r', timeout, hcheck, by simp [hreleased], by simp [hproxies], htimeout.trans ?_⟩
  have hnone : r'.releasedMap = [] ↔ ∀ e ∈ r.releasedMap, reapTimeout ≤ now - e.2 := by
    simp [hreleased, filter_eq_nil_iff]
  have hsome : (∃ e ∈ r'.releasedMap, e.2 < now) ↔
      ∃ e ∈ r.releasedMap, 0 < now - e.2 ∧ now - e.2 < reapTimeout := by
    simp only [hreleased, mem_filter, decide_eq_true_eq, Nat.sub_pos_iff_lt, and_assoc,
      and_comm (a := now - _ < reapTimeout)]
  rw [hnone, hsome]

/-- Proxy 7 is released at 1 s, proxy 8 at 4 s. -/
theorem check_expiration_two :
    ∃ r, run step (new [7, 8]) [.release 7 1000000000, .release 8 4000000000] = some r ∧
      r.checkExpiration r.releasedMap 6000000000 =
        some (⟨[8], [(8, 4000000000)]⟩, 3000000000) := by
  obtain ⟨r, hr, -⟩ := check_expiration_iff [7, 8] [.release 7 1000000000, .release 8 4000000000]
    ⟨trivial, fun _ _ => ⟨trivial, fun _ _ => trivial⟩⟩
  cases hr
  exact ⟨_, rfl, by decide⟩

/-- An id checked at the time of its release: the reaper waits without end. -/
theorem age_zero_waits :
    (run step (new [7]) [.release 7 1000000000]).bind
        (·.checkExpiration [(7, 1000000000)] 1000000000) =
      some (⟨[7], [(7, 1000000000)]⟩, durationMax) ∧ ¬ durationMax ≤ reapTimeout := by
  decide

end ReaperThread

end Shelter.Vsock
