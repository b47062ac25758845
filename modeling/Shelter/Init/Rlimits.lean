import Shelter.Krun.Context

/-!
# The resource limits

`krun_set_rlimits` joins the limits that it is given with commas, and `set_rlimits` of `init` reads
the numbers back, one character after each of them being passed over. What is between these
characters are the `numbers` of a text, and all that `set_rlimits` does is seen from them
(`setRlimits_eq`). `rlimits_applied_iff`: which limits `id=cur:max` are read back, and with which
texts the cursor stays inside.
-/

namespace Shelter.Init

open List Krun

abbrev Text := List Char

def isSpace (c : Char) : Bool := c = ' ' ∨ (9 ≤ c.toNat ∧ c.toNat ≤ 13)

/-- The sign of a number, and what is behind it. -/
def sign : Text → Bool × Text
  | [] => (false, [])
  | c :: s => if c = '-' then (true, s) else if c = '+' then (false, s) else (false, c :: s)

def decimalValue (digits : Text) : ℕ := digits.foldl (fun n c => 10 * n + (c.toNat - '0'.toNat)) 0

/-- `strtoull(item, &item, 10)`: a number that is too large is `ULLONG_MAX`, and no number is 0. -/
def strtoull (item : Text) : U64 × Text :=
  let signed := sign (item.dropWhile isSpace)
  let digits := signed.2.takeWhile Char.isDigit
  let n := decimalValue digits
  if digits = [] then (0, item)
  else
    (if 2 ^ 64 ≤ n then BitVec.allOnes 64
      else if signed.1 then - BitVec.ofNat 64 n else BitVec.ofNat 64 n,
      signed.2.dropWhile Char.isDigit)

theorem length_sign_le (s : Text) : (sign s).2.length ≤ s.length := by
  cases s with
  | nil => exact le_refl _
  | cons c s =>
    rw [sign]
    split_ifs <;> simp

theorem length_strtoull_le (item : Text) : (strtoull item).2.length ≤ item.length := by
  have hdigits (s : Text) : (s.dropWhile Char.isDigit).length ≤ s.length :=
    (dropWhile_suffix _).length_le
  have hspaces : (item.dropWhile isSpace).length ≤ item.length := (dropWhile_suffix _).length_le
  simp only [strtoull]
  split_ifs
  · exact le_refl _
  all_goals exact (hdigits _).trans ((length_sign_le _).trans hspaces)

theorem length_strtoull_tail_lt {item : Text} (h : (strtoull item).2 ≠ []) :
    (strtoull item).2.tail.length < item.length := by
  have hle := length_strtoull_le item
  have hpos := length_pos_iff.mpr h
  rw [length_tail]
  omega

/-- The calls of `setrlimit`, whose first argument is a word of 32 bits; `none` if the cursor is
moved past the end of the text. -/
def setRlimits (item : Text) : Option (List (U32 × U64 × U64)) :=
  let id := strtoull item
  if id.1 = BitVec.allOnes 64 then some []
  else if id.2 = [] then none
  else
    let cur := strtoull id.2.tail
    if cur.2 = [] then none
    else
      let max := strtoull cur.2.tail
      let limit := (id.1.setWidth 32, cur.1, max.1)
      if max.2 = [] then some [limit] else (setRlimits max.2.tail).map (limit :: ·)
termination_by item.length
decreasing_by
  have := length_strtoull_tail_lt ‹¬ (strtoull item).2 = []›
  have := length_strtoull_tail_lt ‹¬ (strtoull (strtoull item).2.tail).2 = []›
  have := length_strtoull_tail_lt ‹¬ (strtoull (strtoull (strtoull item).2.tail).2.tail).2 = []›
  omega

/-! ## The numbers of a text -/

/-- The numbers that one character each stands between. -/
def numbers (item : Text) : List U64 :=
  (strtoull item).1 :: if (strtoull item).2 = [] then [] else numbers (strtoull item).2.tail
termination_by item.length
decreasing_by exact length_strtoull_tail_lt ‹_›

theorem numbers_ne_nil (item : Text) : numbers item ≠ [] := by
  rw [numbers]
  exact cons_ne_nil _ _

def callsOf : List U64 → Option (List (U32 × U64 × U64))
  | id :: cur :: max :: rest =>
    if id = BitVec.allOnes 64 then some []
    else
      if rest = [] then some [(id.setWidth 32, cur, max)]
      else (callsOf rest).map ((id.setWidth 32, cur, max) :: ·)
  | id :: _ => if id = BitVec.allOnes 64 then some [] else none
  | [] => none

theorem callsOf_allOnes (rest : List U64) : callsOf (BitVec.allOnes 64 :: rest) = some [] := by
  match rest with
  | [] | [_] | _ :: _ :: _ => simp [callsOf]

theorem setRlimits_eq (item : Text) : setRlimits item = callsOf (numbers item) := by
  fun_induction setRlimits item with
  | case1 item id hid =>
    rw [numbers, show (strtoull item).1 = _ from hid, callsOf_allOnes]
  | case2 item id hid hend =>
    rw [numbers, if_pos hend, callsOf, if_neg hid]
    simp
  | case3 item id hid hcur cur hend =>
    rw [numbers, if_neg hcur, numbers, if_pos hend, callsOf, if_neg hid]
    simp
  | case4 item id hid hcur cur hmax max limit hend =>
    rw [numbers, if_neg hcur, numbers, if_neg hmax, numbers, if_pos hend, callsOf, if_neg hid,
      if_pos rfl]
  | case5 item id hid hcur cur hmax max limit hnext ih =>
    rw [numbers, if_neg hcur, numbers, if_neg hmax, numbers, if_neg hnext, callsOf, if_neg hid,
      if_neg (numbers_ne_nil _), ih]

theorem callsOf_isSome {ns : List U64} (hne : ns ≠ []) :
    (callsOf ns).isSome ↔ ns.length % 3 = 0 ∨ ∃ i, ns[3 * i]? = some (BitVec.allOnes 64) := by
  fun_induction callsOf ns with
  | case1 | case4 => exact iff_of_true rfl (.inr ⟨0, rfl⟩)
  | case2 id cur max hid => exact iff_of_true rfl (.inl (by simp))
  | case3 id cur max rest hid hrest ih =>
    rw [Option.isSome_map, ih hrest]
    refine or_congr (by simp only [length_cons]; omega) ⟨fun ⟨i, hi⟩ => ⟨i + 1, hi⟩, ?_⟩
    rintro ⟨_ | i, hi⟩
    · exact absurd (Option.some.inj hi) hid
    · exact ⟨i, hi⟩
  | case5 id rest hshort hid =>
    have hlen : rest.length ≤ 1 := by
      match rest with
      | [] | [_] => simp
      | cur :: max :: rest => exact (hshort cur max rest rfl).elim
    refine iff_of_false (by simp) ?_
    rintro (hmod | ⟨_ | i, hi⟩)
    · rw [length_cons] at hmod
      omega
    · exact hid (Option.some.inj hi)
    · obtain ⟨hlt, -⟩ := List.getElem?_eq_some_iff.mp hi
      rw [length_cons] at hlt
      omega
  | case6 => exact absurd rfl hne

theorem length_callsOf_le {ns : List U64} {calls : List (U32 × U64 × U64)}
    (h : callsOf ns = some calls) : 3 * calls.length ≤ ns.length := by
  fun_induction callsOf ns generalizing calls with
  | case1 | case2 | case4 =>
    cases h
    simp
  | case3 id cur max rest hid hrest ih =>
    obtain ⟨calls', hcalls, rfl⟩ := Option.map_eq_some_iff.mp h
    have := ih hcalls
    simp only [length_cons]
    omega
  | case5 | case6 => cases h

/-! ## Limits in their usual form -/

def IsDecimal (digits : Text) : Prop := digits ≠ [] ∧ ∀ c ∈ digits, c.isDigit = true

/-- `id=cur:max` -/
structure Limit where
  id : Text
  cur : Text
  max : Text
  decimal : IsDecimal id ∧ IsDecimal cur ∧ IsDecimal max

namespace Limit

def text (l : Limit) : Text := l.id ++ '=' :: (l.cur ++ ':' :: l.max)

def values (l : Limit) : ℕ × ℕ × ℕ :=
  (decimalValue l.id, decimalValue l.cur, decimalValue l.max)

/-- The numbers are those of a word. -/
def Fits (l : Limit) : Prop :=
  l.values.1 < 2 ^ 32 ∧ l.values.2.1 < 2 ^ 64 ∧ l.values.2.2 < 2 ^ 64

end Limit

def saturated (n : ℕ) : U64 := if 2 ^ 64 ≤ n then BitVec.allOnes 64 else BitVec.ofNat 64 n

def Limit.numbers (l : Limit) : List U64 :=
  [saturated l.values.1, saturated l.values.2.1, saturated l.values.2.2]

theorem toNat_saturated (n : ℕ) : (saturated n).toNat = min n (2 ^ 64 - 1) := by
  unfold saturated
  split_ifs with h
  · rw [BitVec.toNat_allOnes]
    omega
  · rw [BitVec.toNat_ofNat]
    omega

theorem saturated_eq_allOnes {n : ℕ} : saturated n = BitVec.allOnes 64 ↔ 2 ^ 64 - 1 ≤ n := by
  rw [← BitVec.toNat_inj, toNat_saturated, BitVec.toNat_allOnes]
  omega

theorem strtoull_decimal {digits r : Text} (h : IsDecimal digits)
    (hr : ∀ c ∈ r.head?, c.isDigit = false) :
    strtoull (digits ++ r) = (saturated (decimalValue digits), r) := by
  obtain ⟨hne, hdigit⟩ := h
  have hskip : sign ((digits ++ r).dropWhile isSpace) = (false, digits ++ r) := by
    obtain ⟨c, ds, rfl⟩ := exists_cons_of_ne_nil hne
    obtain ⟨h0, -⟩ := Char.isDigit_iff_toNat.mp (hdigit c mem_cons_self)
    have hspace : isSpace c = false := by
      refine decide_eq_false ?_
      rintro (rfl | hc)
      · exact absurd h0 (by decide)
      · simp only [Char.reduceToNat] at h0
        omega
    have hminus : c ≠ '-' := by
      rintro rfl
      exact absurd h0 (by decide)
    have hplus : c ≠ '+' := by
      rintro rfl
      exact absurd h0 (by decide)
    rw [cons_append, dropWhile_cons_of_neg (by simp [hspace]), sign, if_neg hminus, if_neg hplus]
  have hr' : r.takeWhile Char.isDigit = [] ∧ r.dropWhile Char.isDigit = r := by
    cases r with
    | nil => exact ⟨rfl, rfl⟩
    | cons c r => simp [hr c rfl]
  simp only [strtoull, hskip]
  rw [takeWhile_append_of_pos hdigit, dropWhile_append_of_pos hdigit, hr'.1, hr'.2, append_nil,
    if_neg hne]
  rfl

theorem numbers_decimal {digits : Text} (h : IsDecimal digits) (r : Text)
    (hr : ∀ c ∈ r.head?, c.isDigit = false) :
    numbers (digits ++ r) = saturated (decimalValue digits) ::
      if r = [] then [] else numbers r.tail := by
  rw [numbers, strtoull_decimal h hr]

theorem numbers_text (l : Limit) (r : Text) (hr : ∀ c ∈ r.head?, c.isDigit = false) :
    numbers (l.text ++ r) = l.numbers ++ if r = [] then [] else numbers r.tail := by
  obtain ⟨hid, hcur, hmax⟩ := l.decimal
  have htext : l.text ++ r = l.id ++ '=' :: (l.cur ++ ':' :: (l.max ++ r)) := by
    simp [Limit.text]
  rw [htext, numbers_decimal hid _ (by rintro c ⟨⟩; rfl), if_neg (cons_ne_nil _ _), tail_cons,
    numbers_decimal hcur _ (by rintro c ⟨⟩; rfl), if_neg (cons_ne_nil _ _), tail_cons,
    numbers_decimal hmax r hr]
  rfl

theorem numbers_join {ls : List Limit} (hne : ls ≠ []) :
    numbers ([','].intercalate (ls.map Limit.text)) = ls.flatMap Limit.numbers := by
  induction ls with
  | nil => exact absurd rfl hne
  | cons l ls ih =>
    cases ls with
    | nil => simpa [intercalate] using numbers_text l [] nofun
    | cons l' ls =>
      rw [map_cons, map_cons, intercalate_cons_cons, append_assoc, singleton_append,
        numbers_text l _ (by rintro c ⟨⟩; rfl), if_neg (cons_ne_nil _ _), tail_cons, flatMap_cons,
        ← ih (cons_ne_nil _ _)]
      rfl

/-- The numbers of a call. -/
def reading (call : U32 × U64 × U64) : ℕ × ℕ × ℕ :=
  (call.1.toNat, call.2.1.toNat, call.2.2.toNat)

theorem reading_eq_iff {l : Limit} (hid : saturated l.values.1 ≠ BitVec.allOnes 64) :
    reading ((saturated l.values.1).setWidth 32, saturated l.values.2.1, saturated l.values.2.2) =
      l.values ↔ l.Fits := by
  rw [Ne, saturated_eq_allOnes] at hid
  rw [reading, Prod.ext_iff, Prod.ext_iff, Limit.Fits, BitVec.toNat_setWidth, toNat_saturated,
    toNat_saturated, toNat_saturated]
  dsimp only
  omega

theorem callsOf_numbers_iff {ls : List Limit} (hne : ls ≠ []) :
    (callsOf (ls.flatMap Limit.numbers)).map (·.map reading) = some (ls.map Limit.values) ↔
      ∀ l ∈ ls, l.Fits := by
  induction ls with
  | nil => exact absurd rfl hne
  | cons l ls ih =>
    rw [flatMap_cons, Limit.numbers, cons_append, cons_append, singleton_append, callsOf,
      forall_mem_cons, map_cons]
    split_ifs with hid hend
    · -- the loop ends at an id that is too large
      refine iff_of_false (by simp) fun h => ?_
      have hfits := h.1.1
      have hlarge := saturated_eq_allOnes.mp hid
      omega
    · obtain rfl : ls = [] := by
        cases ls with
        | nil => rfl
        | cons => cases hend
      simp [reading_eq_iff hid]
    · have hls : ls ≠ [] := by
        rintro rfl
        exact hend rfl
      rw [← ih hls, ← reading_eq_iff hid]
      cases callsOf (ls.flatMap Limit.numbers) <;> simp

/-- **Resource limits.** `set_rlimits` applies what `krun_set_rlimits` was given exactly if there is
a limit, no more than are kept, and all of them are numbers of their words. With any text at all,
the cursor stays inside exactly if the numbers come in threes, or one that stands for an id is too
large. -/
theorem rlimits_applied_iff {ctxs : CtxMap} {ctxId : U32} {cfg : ContextConfig}
    (hctx : ctxs ctxId = some cfg) (ls : List Limit) :
    (∃ text, (krunSetRlimits ctxs ctxId (some (ls.map fun l => some l.text))).2 ctxId =
        some { cfg with rlimits := some (Krun.quoted text) } ∧
      ((setRlimits text).map (·.map reading) = some (ls.map Limit.values) ↔
        ls ≠ [] ∧ ls.length ≤ Krun.maxArgs ∧ ∀ l ∈ ls, l.Fits)) ∧
    ∀ text, (setRlimits text).isSome ↔
      (numbers text).length % 3 = 0 ∨ ∃ i, (numbers text)[3 * i]? = some (BitVec.allOnes 64) := by
  refine ⟨⟨[','].intercalate ((ls.take Krun.maxArgs).map Limit.text), ?_, ?_⟩, fun text => ?_⟩
  · have hitems : ((ls.map fun l => some l.text).take Krun.maxArgs).mapM id =
        some ((ls.take Krun.maxArgs).map Limit.text) := by
      rw [← mapM_some, map_map, map_take]
      rfl
    simp [krunSetRlimits, hitems, withCtx, hctx]
  · rcases eq_or_ne ls [] with rfl | hne
    · refine iff_of_false ?_ fun h => h.1 rfl
      rw [setRlimits_eq, numbers]
      decide
    have hkept : ls.take Krun.maxArgs ≠ [] := by simpa using ⟨by decide, hne⟩
    rw [setRlimits_eq, numbers_join hkept]
    rcases Nat.lt_or_ge Krun.maxArgs ls.length with hlong | hshort
    · -- limits are missing in the text
      refine iff_of_false (fun h => ?_) fun h => absurd h.2.1 (not_le.mpr hlong)
      obtain ⟨calls, hcalls, heq⟩ := Option.map_eq_some_iff.mp h
      have hle := length_callsOf_le hcalls
      have hlen := congrArg length heq
      simp only [length_map, length_flatMap, Limit.numbers, length_cons, length_nil] at hle hlen
      simp at hle
      omega
    · rw [take_of_length_le hshort, callsOf_numbers_iff hne]
      exact ⟨fun h => ⟨hne, hshort, h⟩, fun h => h.2.2⟩
  · rw [setRlimits_eq]
    exact callsOf_isSome (numbers_ne_nil text)

def oneLimit : Limit := ⟨['7'], ['1', '6'], ['3', '2'], by simp [IsDecimal]⟩

theorem rlimits_applied_iff_one : ∃ text,
    (krunSetRlimits tsiOnly 0 (some [some "7=16:32".toList])).2 0 =
        some { ContextConfig.default with rlimits := some (Krun.quoted text) } ∧
      (setRlimits text).map (·.map reading) = some [(7, 16, 32)] := by
  obtain ⟨⟨text, hstored, happlied⟩, -⟩ := rlimits_applied_iff (rfl : tsiOnly 0 = _) [oneLimit]
  exact ⟨text, hstored, happlied.mpr ⟨cons_ne_nil _ _, by decide,
    forall_mem_singleton.mpr (by decide : oneLimit.values.1 < _ ∧ _)⟩⟩

/-- No limits at all are accepted, and the first number is then looked for behind the end; so it is
when there is only one. -/
theorem rlimits_leave_text :
    (krunSetRlimits tsiOnly 0 (some [])).2 0 =
        some { ContextConfig.default with rlimits := some (Krun.quoted []) } ∧
      setRlimits [] = none ∧ setRlimits ['7'] = none := by
  refine ⟨rfl, ?_, ?_⟩ <;> rw [setRlimits] <;> decide

end Shelter.Init
