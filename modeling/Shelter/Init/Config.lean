import Mathlib.Data.List.Basic
import Mathlib.Logic.Function.Basic
import Shelter.Init.Tokens

/-!
# The configuration file of `init`

`config_parse_file` goes over the tokens of the file and looks at each of them as if it were a key.
It stops when it has the environment, the arguments and the working directory, and an `Entrypoint`
counts as a working directory. The entries of the environment are cut up in the text itself
(`configParseEnv_proper` says what that does to the rest of it).
-/

namespace Shelter.Init

open List

abbrev Environment := CString → Option CString

variable (env : Environment)

def Environment.setenv (name value : CString) (overwrite : Bool) : Environment :=
  if name = [] ∨ '=' ∈ name then env
  else if overwrite = true ∨ env name = none then Function.update env name (some value)
  else env

def overwritten (name : CString) : Bool := name = "HOME".toList ∨ name = "TERM".toList

def maxArgs : ℕ := 32

/-! ## The functions of the source -/

variable (data : List Char)

/-- One turn of `config_parse_env`: the text is cut in two in place, and the quote behind it becomes
its end; the `=` may be one that comes later in the file. With the name and the value that `setenv`
gets, if it is called. -/
def cutEntry (tok : Token) : List Char × Option (CString × CString) :=
  match (cstr (data.drop tok.start)).idxOf? '=' with
  | none => (data, none)
  | some k =>
    let data := (data.set tok.stop nul).set (tok.start + k) nul
    (data, some (cstr (data.drop tok.start), cstr (data.drop (tok.start + k + 1))))

def Environment.call (call : CString × CString) : Environment :=
  env.setenv call.1 call.2 (overwritten call.1)

def parseEnvEntry (env : Environment) (tok : Token) : List Char × Environment :=
  ((cutEntry data tok).1, (cutEntry data tok).2.elim env env.call)

def configParseEnv (data : List Char) (env : Environment) : List Token → List Char × Environment
  | [] => (data, env)
  | tok :: toks =>
    configParseEnv (parseEnvEntry data env tok).1 (parseEnvEntry data env tok).2 toks

/-- The inner `none` is the null pointer; the outer one is a write behind the end of the table. -/
def configParseArgs (array : Token) (after : List Token) : Option (Option (List CString)) :=
  if array.size < maxArgs then
    some (if array.size = 0 then none
      else some ((after.take array.size).map fun tok => cstr (tok.text data)))
  else none

def configParseString (tok : Token) : Option CString :=
  if tok.stop - tok.start = 0 then none else some (cstr (tok.text data))

def concatEntrypointArgv (entrypoint configArgv : List CString) : Option (List CString) :=
  if entrypoint.length + configArgv.length < maxArgs then some (entrypoint ++ configArgv) else none

/-- The variables of `config_parse_file`. `parsed_entrypoint` is never set. -/
structure Found where
  env : Environment
  configArgv : Option (List CString)
  workdir : Option CString
  entrypoint : Option (List CString)
  parsedEnv : Bool
  parsedArgs : Bool
  parsedWorkdir : Bool

structure Scan where
  data : List Char
  found : Found

def Found.finished (f : Found) : Bool := f.parsedEnv && f.parsedArgs && f.parsedWorkdir

namespace Scan

def visitEnv (s : Scan) (tok : Token) : List Token → Scan
  | value :: after =>
    if s.found.parsedEnv = false ∧ jsoneq s.data tok "Env" = true ∧ value.type = .array then
      let r := configParseEnv s.data s.found.env (after.take value.size)
      ⟨r.1, { s.found with env := r.2, parsedEnv := true }⟩
    else s
  | [] => s

/-- The same for `args` and `Cmd`. -/
def visitArgs (name : String) (s : Scan) (tok : Token) : List Token → Option Scan
  | value :: after =>
    if s.found.parsedArgs = false ∧ jsoneq s.data tok name = true then
      (configParseArgs s.data value after).map fun argv =>
        { s with found := { s.found with configArgv := argv, parsedArgs := true } }
    else some s
  | [] => some s

def visitWorkdir (s : Scan) (tok : Token) : List Token → Scan
  | value :: _ =>
    if s.found.parsedWorkdir = false ∧ jsoneq s.data tok "WorkingDir" = true then
      { s with found :=
          { s.found with workdir := configParseString s.data value, parsedWorkdir := true } }
    else s
  | [] => s

def visitEntrypoint (s : Scan) (tok : Token) : List Token → Option Scan
  | value :: after =>
    if jsoneq s.data tok "Entrypoint" = true then
      (configParseArgs s.data value after).map fun argv =>
        { s with found := { s.found with entrypoint := argv, parsedWorkdir := true } }
    else some s
  | [] => some s

/-- One turn of the loop, with the tokens behind the one it is at. -/
def visit (s : Scan) (tok : Token) (rest : List Token) : Option Scan :=
  (visitArgs "args" (s.visitEnv tok rest) tok rest).bind fun s =>
    (visitArgs "Cmd" s tok rest).bind fun s => (s.visitWorkdir tok rest).visitEntrypoint tok rest

def scan (s : Scan) : List Token → Option Scan
  | [] => some s
  | tok :: rest =>
    if s.found.finished = true then some s else (s.visit tok rest).bind fun s => s.scan rest

end Scan

/-- What `config_parse_file` leaves to `main`. -/
structure Config where
  argv : Option (List CString)
  workdir : Option CString
  env : Environment

def Found.config (f : Found) : Option Config :=
  match f.configArgv, f.entrypoint with
  | some argv, some entrypoint =>
    (concatEntrypointArgv entrypoint argv).map fun argv => ⟨some argv, f.workdir, f.env⟩
  | argv, _ => some ⟨argv, f.workdir, f.env⟩

def Found.start : Found := ⟨env, none, none, none, false, false, false⟩

/-- `config_parse_file` once the file is read and tokenised; `none` is a write behind the end of a
table. -/
def configParseFile (env : Environment) : List Token → Option Config
  | object :: tokens =>
    if object.type = .object then
      (Scan.scan ⟨data, .start env⟩ tokens).bind fun s => s.found.config
    else some ⟨none, none, env⟩
  | [] => some ⟨none, none, env⟩

/-! ## Tokens that are not names -/

def names : List String := ["Env", "args", "Cmd", "WorkingDir", "Entrypoint"]

def Quiet (tok : Token) : Prop := ∀ name ∈ names, jsoneq data tok name = false
  deriving Decidable

variable {data data' : List Char} {tok : Token} {toks : List Token}

theorem Quiet.congr (h : Quiet data tok)
    (htext : tok.type = .string → tok.text data' = tok.text data) : Quiet data' tok :=
  fun name hname => (jsoneq_congr htext name).trans (h name hname)

theorem quiet_of_nul (h : nul ∈ tok.text data) : Quiet data tok := by
  have hnames : ∀ name ∈ names, nul ∉ name.toList.map Char.toLower := by decide
  exact fun name hname => jsoneq_false_of_nul h (hnames name hname)

theorem quiet_of_type (h : tok.type ≠ .string) : Quiet data tok := by
  intro name _
  rw [Bool.eq_false_iff]
  exact fun heq => h (jsoneq_iff.mp heq).1

namespace Scan

variable {s : Scan}

theorem visit_of_quiet (h : Quiet s.data tok) (rest : List Token) : s.visit tok rest = some s := by
  have hname : ∀ name ∈ names, jsoneq s.data tok name = false := h
  cases rest with
  | nil => rfl
  | cons value after =>
    simp [visit, visitEnv, visitArgs, visitWorkdir, visitEntrypoint, hname "Env" (by decide),
      hname "args" (by decide), hname "Cmd" (by decide), hname "WorkingDir" (by decide),
      hname "Entrypoint" (by decide)]

theorem scan_finished (h : s.found.finished = true) (toks : List Token) : s.scan toks = some s := by
  cases toks with
  | nil => rfl
  | cons tok rest => rw [scan, if_pos h]

theorem scan_quiet (h : ∀ tok ∈ toks, Quiet s.data tok) (rest : List Token) :
    s.scan (toks ++ rest) = s.scan rest := by
  induction toks with
  | nil => rfl
  | cons tok toks ih =>
    by_cases hfin : s.found.finished = true
    · rw [scan_finished hfin, scan_finished hfin]
    · rw [cons_append, scan, if_neg hfin, visit_of_quiet (h tok mem_cons_self)]
      exact ih fun tok' htok' => h tok' (mem_cons_of_mem _ htok')

end Scan

/-! ## What the environment does to the text -/

/-- The texts differ only in the places of the tokens and right behind them. -/
def Within (toks : List Token) (data data' : List Char) : Prop :=
  data'.length = data.length ∧
    ∀ k, (∀ tok ∈ toks, ¬ (tok.start ≤ k ∧ k ≤ tok.stop)) → data'[k]? = data[k]?

theorem Within.refl (data : List Char) : Within [] data data := ⟨rfl, fun _ _ => rfl⟩

theorem Within.cons {data'' : List Char} (h : Within [tok] data data')
    (h' : Within toks data' data'') : Within (tok :: toks) data data'' := by
  refine ⟨h'.1.trans h.1, fun k hk => ?_⟩
  rw [h'.2 k fun t ht => hk t (mem_cons_of_mem _ ht)]
  refine h.2 k fun t ht => ?_
  rw [mem_singleton.mp ht]
  exact hk tok mem_cons_self

theorem Within.text_eq (h : Within toks data data')
    (happart : ∀ t ∈ toks, tok.stop < t.start ∨ t.stop < tok.start) :
    tok.text data' = tok.text data := by
  apply ext_getElem?
  intro i
  simp only [Token.text, List.getElem?_take, List.getElem?_drop]
  split_ifs with hi
  · refine h.2 _ fun t ht hin => ?_
    have := happart t ht
    omega
  · rfl

theorem Proper.split (h : Proper data tok) :
    ∃ before quote after, data = before ++ (tok.text data ++ quote :: after) ∧
      before.length = tok.start ∧ (tok.text data).length = tok.stop - tok.start := by
  have hlen : (tok.text data).length = tok.stop - tok.start := by
    rw [Token.text, length_take, length_drop]
    have := h.closed
    omega
  have hquote : data.drop tok.stop = data.get ⟨tok.stop, h.closed⟩ :: data.drop (tok.stop + 1) :=
    drop_eq_getElem_cons h.closed
  refine ⟨data.take tok.start, data.get ⟨tok.stop, h.closed⟩, data.drop (tok.stop + 1), ?_, ?_,
    hlen⟩
  · have hrest : data.drop tok.start = tok.text data ++ data.drop tok.stop := by
      have hstop : tok.stop = tok.start + (tok.stop - tok.start) := by
        have := h.order
        omega
      rw [Token.text, hstop, ← drop_drop, Nat.add_sub_cancel_left, take_append_drop]
    rw [← hquote, ← hrest, take_append_drop]
  · rw [length_take]
    have := h.order
    have := h.closed
    omega

/-- The name and the value in `name=value`. -/
def splitEntry (entry : CString) : CString × CString :=
  (entry.takeWhile (· ≠ '='), (entry.dropWhile (· ≠ '=')).drop 1)

def setEntry (entry : CString) : Environment := env.call (splitEntry entry)

theorem splitEntry_append {name : CString} (h : '=' ∉ name) (value : CString) :
    splitEntry (name ++ '=' :: value) = (name, value) := by
  have hname : ∀ c ∈ name, (decide (c ≠ '=')) = true :=
    fun c hc => decide_eq_true fun heq => h (heq ▸ hc)
  have htake : (name ++ '=' :: value).takeWhile (· ≠ '=') = name := by
    rw [takeWhile_append_of_pos hname, takeWhile_cons_of_neg (by decide),
      append_nil]
  rw [splitEntry, htake, dropWhile_append_of_pos hname, dropWhile_cons_of_neg (by decide)]
  rfl

theorem idxOf?_append_cons {a : Char} {l : List Char} (h : a ∉ l) (r : List Char) :
    (l ++ a :: r).idxOf? a = some l.length := by
  induction l with
  | nil => simp [List.idxOf?_cons]
  | cons b l ih =>
    rw [mem_cons, not_or] at h
    rw [cons_append, List.idxOf?_cons, ih h.2]
    simp [Ne.symm h.1]

theorem set_length_append (l : List Char) (x y : Char) (r : List Char) :
    (l ++ x :: r).set l.length y = l ++ y :: r := by
  rw [set_append_right _ _ le_rfl, Nat.sub_self, set_cons_zero]

theorem cutEntry_proper (h : Proper data tok) (heq : '=' ∈ tok.text data) :
    ∃ data', cutEntry data tok = (data', some (splitEntry (tok.text data))) ∧
      Within [tok] data data' ∧ nul ∈ tok.text data' := by
  obtain ⟨before, quote, after, hdata, hbefore, hlen⟩ := h.split
  obtain ⟨name, value, htext, hname⟩ := eq_append_cons_of_mem heq
  have hnul : nul ∉ name ∧ nul ∉ value := by
    have hplain := h.plain.1
    rw [htext, mem_append, mem_cons, not_or, not_or] at hplain
    exact ⟨hplain.1, hplain.2.2⟩
  have hstop : tok.stop = tok.start + (name.length + 1 + value.length) := by
    rw [htext, length_append, length_cons] at hlen
    omega
  -- the two places that are written
  have hset : (data.set tok.stop nul).set (tok.start + name.length) nul =
      before ++ (name ++ nul :: (value ++ nul :: after)) := by
    have hfirst : data.set tok.stop nul = before ++ (name ++ '=' :: (value ++ nul :: after)) := by
      have hsplit : data = (before ++ name ++ '=' :: value) ++ quote :: after := by
        rw [hdata, htext]
        simp
      have hpos : tok.stop = (before ++ name ++ '=' :: value).length := by
        rw [length_append, length_append, length_cons, hbefore, hstop]
        omega
      rw [hsplit, hpos, set_length_append]
      simp
    have hpos : tok.start + name.length = (before ++ name).length := by
      rw [length_append, hbefore]
    rw [hfirst, hpos, ← append_assoc, set_length_append, append_assoc]
  have hfind : (cstr (data.drop tok.start)).idxOf? '=' = some name.length := by
    have hs : ∀ c ∈ name, (decide (c ≠ nul)) = true :=
      fun c hc => decide_eq_true fun heq => hnul.1 (heq ▸ hc)
    rw [hdata, drop_left' hbefore, htext, append_assoc, cstr,
      takeWhile_append_of_pos hs, cons_append, takeWhile_cons_of_pos (by decide),
      idxOf?_append_cons hname]
  have hnameText : cstr (List.drop tok.start (before ++ (name ++ nul :: (value ++ nul :: after)))) =
      name := by
    rw [drop_left' hbefore, cstr_append_nul hnul.1]
  have hvalueText : cstr (List.drop (tok.start + name.length + 1)
      (before ++ (name ++ nul :: (value ++ nul :: after)))) = value := by
    have hpos : (before ++ (name ++ [nul])).length = tok.start + name.length + 1 := by
      rw [length_append, length_append, hbefore]
      rfl
    have hassoc : before ++ (name ++ nul :: (value ++ nul :: after)) =
        (before ++ (name ++ [nul])) ++ (value ++ nul :: after) := by simp
    rw [hassoc, drop_left' hpos, cstr_append_nul hnul.2]
  refine ⟨before ++ (name ++ nul :: (value ++ nul :: after)), ?_, ⟨?_, fun k hk => ?_⟩, ?_⟩
  · rw [cutEntry, hfind]
    simp only [hset, hnameText, hvalueText]
    rw [htext, splitEntry_append hname]
  · rw [← hset, length_set, length_set]
  · have hk' := hk tok mem_cons_self
    rw [← hset, List.getElem?_set_ne (by omega), List.getElem?_set_ne (by omega)]
  · rw [Token.text, drop_left' hbefore, hstop, Nat.add_sub_cancel_left]
    have hcut : (name ++ nul :: (value ++ nul :: after)).take (name.length + 1 + value.length) =
        name ++ nul :: value := by
      have hassoc : name ++ nul :: (value ++ nul :: after) =
          (name ++ nul :: value) ++ nul :: after := by simp
      rw [hassoc, take_left']
      rw [length_append, length_cons]
      omega
    rw [hcut]
    simp

/-- `strstr` finds the `=` of the entry itself, or none. -/
def Cut (data : List Char) (tok : Token) : Prop :=
  '=' ∈ tok.text data ∨ '=' ∉ cstr (data.drop tok.start)
  deriving Decidable

theorem Within.drop_eq (h : Within [tok] data data') {n : ℕ} (hn : tok.stop < n) :
    data'.drop n = data.drop n := by
  apply ext_getElem?
  intro i
  rw [List.getElem?_drop, List.getElem?_drop]
  refine h.2 _ fun t ht hin => ?_
  rw [mem_singleton.mp ht] at hin
  omega

theorem cutEntry_cut (h : Proper data tok) (hcut : Cut data tok) :
    ∃ data', cutEntry data tok =
        (data', if '=' ∈ tok.text data then some (splitEntry (tok.text data)) else none) ∧
      Within [tok] data data' ∧ ('=' ∈ tok.text data → nul ∈ tok.text data') := by
  by_cases heq : '=' ∈ tok.text data
  · obtain ⟨data', hparse, hwithin, hnul⟩ := cutEntry_proper h heq
    exact ⟨data', by rw [hparse, if_pos heq], hwithin, fun _ => hnul⟩
  · have hnone := List.idxOf?_eq_none_iff.mpr (hcut.resolve_left heq)
    refine ⟨data, ?_, ⟨rfl, fun _ _ => rfl⟩, fun h => absurd h heq⟩
    rw [cutEntry, hnone, if_neg heq]

/-- The text after all turns, and the calls of `setenv`. -/
def cutEntries (data : List Char) : List Token → List Char × List (CString × CString)
  | [] => (data, [])
  | tok :: toks =>
    let r := cutEntries (cutEntry data tok).1 toks
    (r.1, (cutEntry data tok).2.toList ++ r.2)

theorem configParseEnv_eq (data : List Char) (env : Environment) (toks : List Token) :
    configParseEnv data env toks =
      ((cutEntries data toks).1, (cutEntries data toks).2.foldl Environment.call env) := by
  induction toks generalizing data env with
  | nil => rfl
  | cons tok toks ih =>
    rw [configParseEnv, ih, parseEnvEntry, cutEntries]
    cases (cutEntry data tok).2 <;> rfl

/-- What the entries ask for. -/
def entryCalls (data : List Char) (toks : List Token) : List (CString × CString) :=
  ((toks.map (·.text data)).filter ('=' ∈ ·)).map splitEntry

theorem entryCalls_cons (data : List Char) (tok : Token) (toks : List Token) :
    entryCalls data (tok :: toks) =
      (if '=' ∈ tok.text data then some (splitEntry (tok.text data)) else none).toList ++
        entryCalls data toks := by
  rw [entryCalls, map_cons, filter_cons]
  split_ifs <;> simp_all [entryCalls]

/-- What a turn that keeps to its entry leaves to the turns that follow. -/
theorem Within.later (hwithin : Within [tok] data data')
    (hbehind : ∀ t ∈ toks, tok.stop < t.start) :
    (∀ t ∈ toks, data'.drop t.start = data.drop t.start) ∧
      (∀ t ∈ toks, t.text data' = t.text data) ∧ entryCalls data' toks = entryCalls data toks := by
  have hlater : ∀ t ∈ toks, data'.drop t.start = data.drop t.start :=
    fun t ht => hwithin.drop_eq (hbehind t ht)
  have htext : ∀ t ∈ toks, t.text data' = t.text data := by
    intro t ht
    rw [Token.text, hlater t ht, Token.text]
  exact ⟨hlater, htext, by rw [entryCalls, map_congr_left htext, entryCalls]⟩

theorem Laid.behind (hlaid : Laid (tok :: toks)) (h : ∀ t ∈ tok :: toks, Proper data t) :
    ∀ t ∈ toks, tok.stop < t.start := fun t ht =>
  (pairwise_cons.mp hlaid).1 t ht (h tok mem_cons_self).string (h t (mem_cons_of_mem _ ht)).string

theorem cutEntries_cut (hlaid : Laid toks) (h : ∀ tok ∈ toks, Proper data tok)
    (hcut : ∀ tok ∈ toks, Cut data tok) :
    ∃ data', cutEntries data toks = (data', entryCalls data toks) ∧ Within toks data data' ∧
      ∀ tok ∈ toks, '=' ∈ tok.text data → nul ∈ tok.text data' := by
  induction toks generalizing data with
  | nil => exact ⟨data, rfl, .refl data, nofun⟩
  | cons tok toks ih =>
    have hbehind := hlaid.behind h
    obtain ⟨hproper, hproper'⟩ := forall_mem_cons.mp h
    obtain ⟨hcut, hcut'⟩ := forall_mem_cons.mp hcut
    obtain ⟨data₁, hentry, hwithin, hnul⟩ := cutEntry_cut hproper hcut
    -- the entries that follow are not touched
    obtain ⟨hlater, htext, hcalls⟩ := hwithin.later hbehind
    obtain ⟨data₂, hrest, hwithin', hnul'⟩ := ih (pairwise_cons.mp hlaid).2
      (fun t ht => (hproper' t ht).congr hwithin.1 (htext t ht))
      (fun t ht => by rw [Cut, htext t ht, hlater t ht]; exact hcut' t ht)
    refine ⟨data₂, ?_, hwithin.cons hwithin',
      forall_mem_cons.mpr ⟨fun heq => ?_, fun t ht heq => ?_⟩⟩
    · rw [cutEntries, hentry, hrest, hcalls, entryCalls_cons]
    · rw [hwithin'.text_eq fun t' ht' => .inl (hbehind t' ht')]
      exact hnul heq
    · exact hnul' t ht (by rwa [htext t ht])

theorem configParseEnv_proper (hlaid : Laid toks)
    (h : ∀ tok ∈ toks, Proper data tok ∧ '=' ∈ tok.text data) (env : Environment) :
    ∃ data', configParseEnv data env toks =
        (data', (toks.map (·.text data)).foldl setEntry env) ∧
      Within toks data data' ∧ ∀ tok ∈ toks, nul ∈ tok.text data' := by
  obtain ⟨data', hparse, hwithin, hnul⟩ :=
    cutEntries_cut hlaid (fun tok ht => (h tok ht).1) fun tok ht => .inl (h tok ht).2
  refine ⟨data', ?_, hwithin, fun tok ht => hnul tok ht (h tok ht).2⟩
  rw [configParseEnv_eq, hparse, entryCalls, filter_eq_self.mpr (by simpa using fun tok ht =>
    (h tok ht).2), foldl_map]
  rfl

/-! ## Entries that take the `=` of another one -/

theorem cstr_of_nul_notMem {l : List Char} (h : nul ∉ l) : cstr l = l :=
  takeWhile_eq_self_iff.mpr fun _ hc => decide_eq_true fun heq => h (heq ▸ hc)

/-- The value of an entry that takes a later `=` is all that follows in the text. -/
theorem cutEntry_taken (hnul : nul ∉ data.drop tok.start) (hnone : '=' ∉ tok.text data)
    (hlater : '=' ∈ data.drop tok.start) :
    ∃ before after data' name, data.drop tok.start = before ++ '=' :: after ∧ '=' ∉ before ∧
      cutEntry data tok = (data', some (name, after)) := by
  obtain ⟨before, after, hdrop, hbefore⟩ := eq_append_cons_of_mem hlater
  have hstop : tok.stop ≤ tok.start + before.length := by
    by_contra hlt
    refine hnone (mem_of_getElem? (i := before.length) ?_)
    rw [Token.text, hdrop, getElem?_take_of_lt (by omega)]
    simp
  have hafter : data.drop (tok.start + before.length + 1) = after := by
    rw [Nat.add_assoc, ← drop_drop, hdrop, ← drop_drop, drop_left]
    rfl
  let data' := (data.set tok.stop nul).set (tok.start + before.length) nul
  have hvalue : cstr (data'.drop (tok.start + before.length + 1)) = after := by
    rw [drop_set_of_lt (by omega), drop_set_of_lt (by omega), hafter, cstr_of_nul_notMem]
    rw [hdrop] at hnul
    exact fun hmem => hnul (by simp [hmem])
  refine ⟨before, after, data', cstr (data'.drop tok.start), hdrop, hbefore, ?_⟩
  rw [cutEntry, cstr_of_nul_notMem hnul, hdrop, idxOf?_append_cons hbefore, ← hvalue]

/-- The value of an entry is shorter than what follows an `=` before it in the text. -/
theorem length_value_lt {t : Token} {before after : List Char} (h : Proper data t)
    (heq : '=' ∈ t.text data) (hle : tok.start ≤ t.start)
    (hdrop : data.drop tok.start = before ++ '=' :: after) (hbefore : '=' ∉ before) :
    (splitEntry (t.text data)).2.length < after.length := by
  obtain ⟨name, value, htext, hname⟩ := eq_append_cons_of_mem heq
  rw [htext, splitEntry_append hname]
  have hlen : (t.text data).length = t.stop - t.start := by
    obtain ⟨-, -, -, -, -, hlen⟩ := h.split
    exact hlen
  rw [htext, length_append, length_cons] at hlen
  -- the place of the `=` of the entry
  have hplace : before.length ≤ t.start - tok.start + name.length := by
    by_contra hlt
    have hat : (data.drop tok.start)[t.start - tok.start + name.length]? = some '=' := by
      have hin : (t.text data)[name.length]? = some '=' := by rw [htext]; simp
      rw [Token.text, getElem?_take_of_lt (by omega), getElem?_drop] at hin
      rw [getElem?_drop, ← hin]
      congr 1
      omega
    rw [hdrop, getElem?_append_left (by omega)] at hat
    exact hbefore (mem_of_getElem? hat)
  have hall := congrArg length hdrop
  rw [length_drop, length_append, length_cons] at hall
  have := h.order
  have := h.closed
  dsimp only
  omega

theorem cutEntries_iff (hlaid : Laid toks) (h : ∀ tok ∈ toks, Proper data tok)
    (hnul : ∀ tok ∈ toks, nul ∉ data.drop tok.start) :
    (cutEntries data toks).2 = entryCalls data toks ↔ ∀ tok ∈ toks, Cut data tok := by
  refine ⟨fun hcalls => ?_, fun hcut => ?_⟩
  · induction toks generalizing data with
    | nil => nofun
    | cons tok toks ih =>
      have hbehind := hlaid.behind h
      obtain ⟨hproper, hproper'⟩ := forall_mem_cons.mp h
      obtain ⟨hnul, hnul'⟩ := forall_mem_cons.mp hnul
      rw [entryCalls_cons, cutEntries] at hcalls
      by_cases hcut : Cut data tok
      · obtain ⟨data₁, hentry, hwithin, -⟩ := cutEntry_cut hproper hcut
        obtain ⟨hlater, htext, hrest⟩ := hwithin.later hbehind
        rw [hentry, ← hrest] at hcalls
        refine forall_mem_cons.mpr ⟨hcut, fun t ht => ?_⟩
        rw [Cut, ← htext t ht, ← hlater t ht]
        exact ih (pairwise_cons.mp hlaid).2
          (fun t ht => (hproper' t ht).congr hwithin.1 (htext t ht))
          (fun t ht => hlater t ht ▸ hnul' t ht) (append_cancel_left hcalls) t ht
      · -- the call that is made has a value no entry has
        rw [Cut, not_or, not_not, cstr_of_nul_notMem hnul] at hcut
        obtain ⟨before, after, data', name, hdrop, hbefore, hentry⟩ :=
          cutEntry_taken hnul hcut.1 hcut.2
        rw [hentry, if_neg hcut.1] at hcalls
        have hmem : (name, after) ∈ entryCalls data toks :=
          (show (name, after) :: _ = entryCalls data toks from hcalls) ▸ mem_cons_self
        simp only [entryCalls, mem_map, mem_filter, decide_eq_true_eq] at hmem
        obtain ⟨entry, ⟨⟨t, ht, rfl⟩, heq⟩, hsplit⟩ := hmem
        have hlt := length_value_lt (hproper' t ht) heq
          ((hproper.order.trans_lt (hbehind t ht)).le) hdrop hbefore
        rw [hsplit] at hlt
        exact absurd hlt (lt_irrefl _)
  · obtain ⟨data', hentries, -⟩ := cutEntries_cut hlaid h hcut
    rw [hentries]

/-- Over strings without escapes in a text without NUL, `setenv` gets what the entries with an `=`
ask for exactly if each entry has an `=`, or no `=` comes behind it in the text. -/
theorem config_env_iff (hlaid : Laid toks) (h : ∀ tok ∈ toks, Proper data tok) (hnul : nul ∉ data)
    (env : Environment) :
    (configParseEnv data env toks).2 = (cutEntries data toks).2.foldl Environment.call env ∧
      ((cutEntries data toks).2 = entryCalls data toks ↔
        ∀ tok ∈ toks, '=' ∈ tok.text data ∨ '=' ∉ data.drop tok.start) := by
  have hdrop : ∀ n, nul ∉ data.drop n := fun n hmem => hnul (mem_of_mem_drop hmem)
  refine ⟨by rw [configParseEnv_eq], (cutEntries_iff hlaid h fun tok _ => hdrop _).trans ?_⟩
  exact forall₂_congr fun tok _ => by rw [Cut, cstr_of_nul_notMem (hdrop _)]

abbrev envText (items : List String) : List Char := documentText [("Env", .array items)]

abbrev envTokens (items : List String) : List Token := stringsAt 8 items

theorem config_env_iff_two :
    (configParseEnv (envText ["A=1", "B"]) (fun _ => none) (envTokens ["A=1", "B"])).2 =
      setEntry (fun _ => none) "A=1".toList := by
  obtain ⟨henv, hcalls⟩ := config_env_iff (show Laid (envTokens ["A=1", "B"]) by decide)
    (show ∀ tok ∈ _, Proper (envText ["A=1", "B"]) tok by decide) (by decide) fun _ => none
  rw [henv, hcalls.mpr (by decide)]
  rfl

/-- An entry without `=` takes the one of the next entry: it becomes a variable, and the next entry
does not. -/
theorem config_env_takes_next :
    (configParseEnv (envText ["A", "B=1"]) (fun _ => none) (envTokens ["A", "B=1"])).2 "A".toList =
        some "1\"]\x7d".toList ∧
      (configParseEnv (envText ["A", "B=1"]) (fun _ => none) (envTokens ["A", "B=1"])).2
        "B".toList = none := by
  decide

end Shelter.Init
