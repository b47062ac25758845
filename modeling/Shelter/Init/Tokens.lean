import Mathlib.Data.List.Pairwise
import Mathlib.Data.List.TakeWhile
import Shelter.Lib.Hex

/-!
# JSON text and its tokens

What `jsmn_parse` leaves of a text: a list of tokens in the order of the document, each with its
type, the place of its text and the number of its elements. The functions of `init.c` walk over this
list. A `Member` is what the tokeniser makes of one key and its value.
-/

namespace Shelter.Init

abbrev CString := List Char

def nul : Char := Char.ofNat 0

def cstr (s : List Char) : CString := s.takeWhile (· ≠ nul)

theorem cstr_append_nul {s : List Char} (h : nul ∉ s) (r : List Char) :
    cstr (s ++ nul :: r) = s := by
  have hs : ∀ c ∈ s, (decide (c ≠ nul)) = true :=
    fun c hc => decide_eq_true fun heq => h (heq ▸ hc)
  rw [cstr, List.takeWhile_append_of_pos hs, List.takeWhile_cons_of_neg (by decide),
    List.append_nil]

inductive TokenType
  | undefined
  | object
  | array
  | string
  | primitive
  deriving DecidableEq, Inhabited, Repr

/-- `jsmntok_t`; `stop` is `end`. -/
structure Token where
  type : TokenType
  start : ℕ
  stop : ℕ
  size : ℕ
  deriving DecidableEq, Inhabited, Repr

def Token.text (data : List Char) (tok : Token) : List Char :=
  (data.drop tok.start).take (tok.stop - tok.start)

/-- `jsoneq` returns 0: a string of the length of `s` that is `s` but for the case of letters. -/
def jsoneq (data : List Char) (tok : Token) (s : String) : Bool :=
  tok.type = .string ∧ s.length = tok.stop - tok.start ∧
    (tok.text data).map Char.toLower = s.toList.map Char.toLower

variable {data data' : List Char} {tok : Token} {s : String}

theorem jsoneq_iff :
    jsoneq data tok s = true ↔ tok.type = .string ∧ s.length = tok.stop - tok.start ∧
      (tok.text data).map Char.toLower = s.toList.map Char.toLower := by
  rw [jsoneq, decide_eq_true_iff]

theorem jsoneq_false (s' : String) (h : jsoneq data tok s = true)
    (hne : s.toList.map Char.toLower ≠ s'.toList.map Char.toLower := by decide) :
    jsoneq data tok s' = false := by
  rw [Bool.eq_false_iff]
  intro h'
  exact hne ((jsoneq_iff.mp h).2.2.symm.trans (jsoneq_iff.mp h').2.2)

theorem jsoneq_congr (h : tok.type = .string → tok.text data' = tok.text data) (s : String) :
    jsoneq data' tok s = jsoneq data tok s := by
  rw [Bool.eq_iff_iff, jsoneq_iff, jsoneq_iff]
  constructor
  · rintro ⟨ht, hl, he⟩
    exact ⟨ht, hl, h ht ▸ he⟩
  · rintro ⟨ht, hl, he⟩
    exact ⟨ht, hl, (h ht).symm ▸ he⟩

theorem jsoneq_false_of_nul (h : nul ∈ tok.text data) (hs : nul ∉ s.toList.map Char.toLower) :
    jsoneq data tok s = false := by
  rw [Bool.eq_false_iff]
  intro heq
  have hmem : Char.toLower nul ∈ (tok.text data).map Char.toLower := List.mem_map_of_mem h
  rw [(jsoneq_iff.mp heq).2.2] at hmem
  exact hs hmem

/-! ## Values of strings -/

/-- The value of a JSON string, from the text between the quotes. -/
def unescape : List Char → List Char
  | [] => []
  | '\\' :: 'u' :: a :: b :: c :: d :: rest =>
    Char.ofNat ([a, b, c, d].foldl (fun n x => 16 * n + (Hex.digitValue x).getD 0) 0) ::
      unescape rest
  | '\\' :: 'b' :: rest => Char.ofNat 8 :: unescape rest
  | '\\' :: 'f' :: rest => Char.ofNat 12 :: unescape rest
  | '\\' :: 'n' :: rest => '\n' :: unescape rest
  | '\\' :: 'r' :: rest => '\r' :: unescape rest
  | '\\' :: 't' :: rest => '\t' :: unescape rest
  | '\\' :: c :: rest => c :: unescape rest
  | c :: rest => c :: unescape rest

theorem unescape_cons {c : Char} (hc : c ≠ '\\') (rest : List Char) :
    unescape (c :: rest) = c :: unescape rest := by
  rw [unescape]
  all_goals
    intros
    simp_all

theorem unescape_eq_self {s : List Char} (h : '\\' ∉ s) : unescape s = s := by
  induction s with
  | nil => rfl
  | cons c rest ih =>
    rw [List.mem_cons, not_or] at h
    obtain ⟨hc, hrest⟩ := h
    rw [unescape_cons (Ne.symm hc), ih hrest]

/-- A string that is written without escapes, and the quote behind it. -/
@[mk_iff] structure Proper (data : List Char) (tok : Token) : Prop where
  string : tok.type = .string
  order : tok.start ≤ tok.stop
  closed : tok.stop < data.length
  plain : nul ∉ tok.text data ∧ '\\' ∉ tok.text data

instance (data : List Char) (tok : Token) : Decidable (Proper data tok) :=
  decidable_of_iff' _ (proper_iff ..)

theorem Proper.congr (h : Proper data tok) (hlen : data'.length = data.length)
    (htext : tok.text data' = tok.text data) : Proper data' tok :=
  ⟨h.string, h.order, hlen ▸ h.closed, htext ▸ h.plain⟩

theorem Proper.cstr_eq (h : Proper data tok) : cstr (tok.text data) = tok.text data := by
  rw [cstr, List.takeWhile_eq_self_iff]
  intro c hc
  exact decide_eq_true fun heq => h.plain.1 (heq ▸ hc)

/-! ## Members of an object -/

/-- A key, its value, and the tokens inside the value. -/
structure Member where
  key : Token
  value : Token
  inner : List Token
  deriving DecidableEq, Inhabited, Repr

def Member.tokens (m : Member) : List Token := m.key :: m.value :: m.inner

/-- Strings do not overlap, and come in the order of the document. -/
def Laid (toks : List Token) : Prop :=
  toks.Pairwise fun a b => a.type = .string → b.type = .string → a.stop < b.start
  deriving Decidable

/-! ## Documents -/

inductive Value
  | string (s : String)
  | array (items : List String)
  deriving DecidableEq, Repr

def stringAt (pos : ℕ) (s : String) (size : ℕ) : Token :=
  ⟨.string, pos + 1, pos + 1 + s.length, size⟩

def quoted (s : String) : List Char := '"' :: s.toList ++ ['"']

def stringsAt (pos : ℕ) : List String → List Token
  | [] => []
  | s :: rest => stringAt pos s 0 :: stringsAt (pos + s.length + 3) rest

def Value.text : Value → List Char
  | .string s => quoted s
  | .array items => '[' :: [','].intercalate (items.map quoted) ++ [']']

def memberAt (pos : ℕ) (key : String) (value : Value) : Member :=
  let start := pos + key.length + 3
  match value with
  | .string s => ⟨stringAt pos key 1, stringAt start s 0, []⟩
  | .array items =>
    ⟨stringAt pos key 1, ⟨.array, start, start + value.text.length, items.length⟩,
      stringsAt (start + 1) items⟩

def memberText (key : String) (value : Value) : List Char := quoted key ++ ':' :: value.text

def membersAt (pos : ℕ) : List (String × Value) → List Member
  | [] => []
  | (key, value) :: rest =>
    memberAt pos key value :: membersAt (pos + (memberText key value).length + 1) rest

variable (ms : List (String × Value))

def documentText : List Char :=
  '{' :: [','].intercalate (ms.map fun m => memberText m.1 m.2) ++ ['}']

def documentObject : Token :=
  ⟨.object, 0, (documentText ms).length, ms.length⟩

def documentTokens : List Token :=
  documentObject ms :: (membersAt 1 ms).flatMap Member.tokens

end Shelter.Init
