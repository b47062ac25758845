import Mathlib.Logic.Function.Basic
import Shelter.Init.Tokens

/-!
# The passphrase of the disk

`get_luks_passphrase` finds a JSON text before the footer of the disk and copies four of its strings
to buffers on the stack. The copies have no end of their own: a string that is used ends where the
stack happens to have a null character. `strings_iff_ended`: the strings are those of the text
exactly if the stack has one right behind each of them.
-/

namespace Shelter.Init

open Bytes List Option

inductive Field
  | wid
  | url
  | tee
  | teeData
  deriving DecidableEq, Repr

def Field.name : Field → String
  | .wid => "workload_id"
  | .url => "attestation_url"
  | .tee => "tee"
  | .teeData => "tee_data"

def Field.all : List Field := [.wid, .url, .tee, .teeData]

def bufferSize : ℕ := 256

structure Buffers where
  buffer : Field → List Char
  found : Field → Bool

/-- `strncpy` of a whole text: it writes as many characters as the text has, and none behind them.
`none` is a write behind the end of the buffer. -/
def strncpy (buffer src : List Char) : Option (List Char) :=
  if src.length ≤ bufferSize then
    some (cstr src ++ List.replicate (src.length - (cstr src).length) nul ++ buffer.drop src.length)
  else none

namespace Buffers

def visit (data : List Char) (b : Buffers) (tok next : Token) : Option Buffers :=
  match Field.all.find? fun f => jsoneq data tok f.name with
  | some f =>
    (strncpy (b.buffer f) (next.text data)).map fun buffer =>
      ⟨Function.update b.buffer f buffer, Function.update b.found f true⟩
  | none => some b

def scan (data : List Char) (b : Buffers) : List Token → Option Buffers
  | tok :: next :: rest => (b.visit data tok next).bind fun b => b.scan data (next :: rest)
  | _ => some b

/-- The string in a buffer; `none` if the buffer has no end of one. -/
def string (b : Buffers) (f : Field) : Option CString :=
  if nul ∈ b.buffer f then some (cstr (b.buffer f)) else none

/-- `strcmp` says that the strings are equal. -/
def isString (b : Buffers) (f : Field) (s : String) : Bool :=
  (b.buffer f).take (s.length + 1) = s.toList ++ [nul]

end Buffers

inductive Source
  | nowhere
  /-- `sev_get_luks_passphrase` -/
  | sev
  /-- `snp_get_luks_passphrase`, with its arguments -/
  | snp (url wid teeData : Option CString)
  deriving DecidableEq, Repr

/-- The end of `get_luks_passphrase`. -/
def Buffers.source (b : Buffers) : Source :=
  if b.found .wid = false then .nowhere
  else if b.found .url = false then .nowhere
  else if b.found .tee = false then .nowhere
  else if b.isString .tee "snp" then
    if b.found .teeData = false then .nowhere
    else .snp (b.string .url) (b.string .wid) (b.string .teeData)
  else if b.isString .tee "sev" then .sev
  else .nowhere

def Buffers.start (stack : Field → List Char) : Buffers := ⟨stack, fun _ => false⟩

/-- The text before the footer of the disk, the magic number and the size. The inner `none` is a
disk without the magic number, the outer one an error. -/
def teeConfig (disk : List Byte) : Option (Option (List Char)) :=
  let footer := disk.drop (disk.length - 12)
  let size := leNat (footer.drop 4)
  if disk.length < 12 then none
  else if footer.take 4 ≠ "KRUN".toList.map fun c => BitVec.ofNat 8 c.toNat then some none
  else if size ≤ disk.length - 12 ∧ size ≤ 0x7ffff000 then
    some (some (((disk.drop (disk.length - 12 - size)).take size).map fun b => Char.ofNat b.toNat))
  else none

/-- `get_luks_passphrase` for a disk, the tokeniser and what the stack holds. `none` is a write
behind the end of a buffer. -/
def getLuksPassphrase (jsmnParse : List Char → Option (List Token)) (disk : List Byte)
    (stack : Field → List Char) : Option Source :=
  match teeConfig disk with
  | none => some .nowhere
  | some none => some .sev
  | some (some text) =>
    match jsmnParse (cstr text) with
    | some (object :: tokens) =>
      if object.type = .object then ((Buffers.start stack).scan text tokens).map Buffers.source
      else some .nowhere
    | some [] | none => some .nowhere

/-! ## The four members -/

/-- A text with the four keys once each, with strings shorter than the buffers, in which only the
keys are names. -/
structure TeeMembers (data : List Char) (ms : List Member) (member : Field → Member) : Prop where
  quiet : ∀ m ∈ ms, ∀ tok ∈ m.value :: m.inner, ∀ f : Field, jsoneq data tok f.name = false
  once : ∀ f : Field, ms.filter (fun m => jsoneq data m.key f.name) = [member f]
  proper : ∀ f : Field, Proper data (member f).value
  short : ∀ f : Field, ((member f).value.text data).length < bufferSize

theorem foldl_val {S A V : Type} (step : S → A → S) (val : S → V) (p : A → Bool) (g : V → A → V)
    {l : List A} (h : ∀ s, ∀ a ∈ l, val (step s a) = if p a = true then g (val s) a else val s)
    (s : S) : val (l.foldl step s) = (l.filter p).foldl g (val s) := by
  induction l generalizing s with
  | nil => rfl
  | cons a l ih =>
    rw [foldl_cons, ih (fun s a ha => h s a (mem_cons_of_mem _ ha)),
      h s a mem_cons_self]
    split_ifs with hp
    · rw [filter_cons_of_pos hp, foldl_cons]
    · rw [filter_cons_of_neg hp]

variable {b : Buffers} {f : Field} {v r : List Char}

namespace Buffers

variable {data : List Char} {tok : Token} {ms : List Member} {members : Field → Member}

theorem visit_of_quiet {next : Token} (h : ∀ f : Field, jsoneq data tok f.name = false) :
    b.visit data tok next = some b := by
  have hnone : Field.all.find? (fun f => jsoneq data tok f.name) = none :=
    List.find?_eq_none.mpr fun f _ => by rw [h f]; decide
  rw [visit, hnone]

theorem scan_quiet {toks : List Token}
    (h : ∀ tok ∈ toks, ∀ f : Field, jsoneq data tok f.name = false) (rest : List Token) :
    b.scan data (toks ++ rest) = b.scan data rest := by
  induction toks with
  | nil => rfl
  | cons tok toks ih =>
    have ih' := ih fun tok' htok' => h tok' (mem_cons_of_mem _ htok')
    rw [← ih', cons_append]
    cases toks ++ rest with
    | nil => rfl
    | cons next l => rw [scan, visit_of_quiet (h tok mem_cons_self), bind_some]

theorem find?_name (h : jsoneq data tok f.name = true) :
    Field.all.find? (fun f => jsoneq data tok f.name) = some f := by
  have hnames : ∀ f f' : Field, f ≠ f' →
      f.name.toList.map Char.toLower ≠ f'.name.toList.map Char.toLower := by
    intro f f'
    cases f <;> cases f' <;> decide
  have hother : ∀ f', f' ≠ f → jsoneq data tok f'.name = false :=
    fun f' hne => jsoneq_false _ h (hnames f f' (Ne.symm hne))
  cases f with
  | wid => simp [Field.all, h]
  | url => simp [Field.all, h, hother .wid (by decide)]
  | tee => simp [Field.all, h, hother .wid (by decide), hother .url (by decide)]
  | teeData =>
    simp [Field.all, h, hother .wid (by decide), hother .url (by decide), hother .tee (by decide)]

variable (data) in
def member (b : Buffers) (m : Member) : Buffers where
  buffer f :=
    if jsoneq data m.key f.name = true then
      m.value.text data ++ (b.buffer f).drop (m.value.text data).length
    else b.buffer f
  found f := if jsoneq data m.key f.name = true then true else b.found f

theorem scan_member (h : TeeMembers data ms members) {m : Member} (hm : m ∈ ms) (b : Buffers)
    (rest : List Token) : b.scan data (m.tokens ++ rest) = (b.member data m).scan data rest := by
  have hvisit : b.visit data m.key m.value = some (b.member data m) := by
    by_cases hkey : ∃ f : Field, jsoneq data m.key f.name = true
    · obtain ⟨f, hf⟩ := hkey
      have hmem : m ∈ ms.filter fun m => jsoneq data m.key f.name := mem_filter.mpr ⟨hm, hf⟩
      rw [h.once f] at hmem
      obtain rfl := mem_singleton.mp hmem
      have hcopy : strncpy (b.buffer f) ((members f).value.text data) =
          some ((members f).value.text data ++
            (b.buffer f).drop ((members f).value.text data).length) := by
        rw [strncpy, if_pos (h.short f).le, (h.proper f).cstr_eq, Nat.sub_self,
          replicate_zero, append_nil]
      have honly : ∀ f', jsoneq data (members f).key f'.name = true ↔ f' = f := by
        intro f'
        refine ⟨fun hf' => ?_, fun heq => heq ▸ hf⟩
        exact Option.some.inj ((find?_name hf').symm.trans (find?_name hf))
      rw [visit, find?_name hf]
      show Option.map _ (strncpy _ _) = _
      rw [hcopy, map_some]
      congr 1
      congr 1
      all_goals
        funext f'
        by_cases heq : f' = f
        · subst heq
          rw [Function.update_self, if_pos hf]
        · rw [Function.update_of_ne heq, if_neg fun hf' => heq ((honly f').mp hf')]
    · have hnot : ∀ f : Field, jsoneq data m.key f.name = false :=
        fun f => Bool.eq_false_iff.mpr fun hf => hkey ⟨f, hf⟩
      rw [visit_of_quiet hnot, member]
      simp only [hnot]
      rfl
  show b.scan data (m.key :: m.value :: (m.inner ++ rest)) = _
  rw [scan, hvisit, bind_some, ← cons_append]
  exact scan_quiet (h.quiet m hm) rest

theorem scan_members (h : TeeMembers data ms members) {l : List Member} (hl : ∀ m ∈ l, m ∈ ms)
    (b : Buffers) :
    b.scan data (l.flatMap Member.tokens) = some (l.foldl (Buffers.member data) b) := by
  induction l generalizing b with
  | nil => rfl
  | cons m l ih =>
    rw [flatMap_cons, scan_member h (hl m mem_cons_self), foldl_cons]
    exact ih (fun m' hm' => hl m' (mem_cons_of_mem _ hm')) (b.member data m)

theorem foldl_member (h : TeeMembers data ms members) (stack : Field → List Char) (f : Field) :
    (ms.foldl (Buffers.member data) (.start stack)).buffer f = (members f).value.text data ++
        (stack f).drop ((members f).value.text data).length ∧
      (ms.foldl (Buffers.member data) (.start stack)).found f = true := by
  constructor
  · rw [foldl_val (Buffers.member data) (·.buffer f) (fun m => jsoneq data m.key f.name)
      (fun v m => m.value.text data ++ v.drop (m.value.text data).length) (fun _ _ _ => rfl),
      h.once f]
    rfl
  · rw [foldl_val (Buffers.member data) (·.found f) (fun m => jsoneq data m.key f.name)
      (fun _ _ => true) (fun _ _ _ => rfl), h.once f]
    rfl

end Buffers

/-! ## Strings and their ends -/

theorem string_iff {c : Char} (hv : nul ∉ v) (hb : b.buffer f = v ++ c :: r) :
    b.string f = some v ↔ c = nul := by
  rw [Buffers.string, hb]
  constructor
  · intro h
    by_contra hc
    obtain ⟨-, hcstr⟩ := ite_some_none_eq_some.mp h
    have hall : ∀ x ∈ v, (decide (x ≠ nul)) = true :=
      fun x hx => decide_eq_true fun heq => hv (heq ▸ hx)
    rw [cstr, takeWhile_append_of_pos hall, takeWhile_cons_of_pos (by simpa using hc)]
      at hcstr
    have hlen := congrArg List.length hcstr
    rw [length_append, length_cons] at hlen
    omega
  · rintro rfl
    rw [if_pos (by simp), cstr_append_nul hv]

theorem isString_iff (hv : nul ∉ v) (hb : b.buffer f = v ++ nul :: r) {s : String}
    (hs : nul ∉ s.toList) : b.isString f s = true ↔ v = s.toList := by
  rw [Buffers.isString, decide_eq_true_iff, hb]
  constructor
  · intro h
    have hsplit := take_append_drop (s.length + 1) (v ++ nul :: r)
    rw [h, append_assoc] at hsplit
    have hleft := cstr_append_nul hs ((v ++ nul :: r).drop (s.length + 1))
    exact (cstr_append_nul hv r).symm.trans ((congrArg cstr hsplit.symm).trans hleft)
  · rintro rfl
    have hassoc : s.toList ++ nul :: r = (s.toList ++ [nul]) ++ r := by simp
    rw [hassoc, take_left']
    rw [length_append]
    rfl

def sourceOf (value : Field → CString) : Source :=
  if value .tee = "snp".toList then
    .snp (some (value .url)) (some (value .wid)) (some (value .teeData))
  else if value .tee = "sev".toList then .sev
  else .nowhere

theorem source_eq {value : Field → CString} (hfound : ∀ f, b.found f = true)
    (hplain : ∀ f, nul ∉ value f) (hb : ∀ f, ∃ r, b.buffer f = value f ++ nul :: r) :
    b.source = sourceOf value := by
  have hstring : ∀ f, b.string f = some (value f) := fun f => by
    obtain ⟨r, hr⟩ := hb f
    exact (string_iff (hplain f) hr).mpr rfl
  obtain ⟨r, hr⟩ := hb .tee
  have hsnp := isString_iff (hplain .tee) hr (s := "snp") (by decide)
  have hsev := isString_iff (hplain .tee) hr (s := "sev") (by decide)
  simp only [Buffers.source, sourceOf, hfound, hstring, hsnp, hsev]
  rfl

/-- For every disk with the four strings in its text, the strings that are used are those of the
text exactly if the stack has a null character right behind each of them, and then the passphrase
comes from where the text says. -/
theorem strings_iff_ended {jsmnParse : List Char → Option (List Token)} {disk : List Byte}
    {text : List Char} {object : Token} {ms : List Member} {member : Field → Member}
    (hdisk : teeConfig disk = some (some text))
    (hparse : jsmnParse (cstr text) = some (object :: ms.flatMap Member.tokens))
    (hobject : object.type = .object) (h : TeeMembers text ms member)
    {stack : Field → List Char} (hstack : ∀ f, (stack f).length = bufferSize) :
    ∃ b : Buffers, getLuksPassphrase jsmnParse disk stack = some b.source ∧
      ((∀ f, b.string f = some (unescape ((member f).value.text text))) ↔
        ∀ f, (stack f)[((member f).value.text text).length]? = some nul) ∧
      ((∀ f, (stack f)[((member f).value.text text).length]? = some nul) →
        b.source = sourceOf fun f => unescape ((member f).value.text text)) := by
  -- the character behind each string is one of the stack
  have hbuffer : ∀ f, ∃ c r, (ms.foldl (Buffers.member text) (.start stack)).buffer f =
      (member f).value.text text ++ c :: r ∧
        ((stack f)[((member f).value.text text).length]? = some nul ↔ c = nul) := by
    intro f
    have hlt : ((member f).value.text text).length < (stack f).length := by
      rw [hstack f]
      exact h.short f
    refine ⟨(stack f).get ⟨_, hlt⟩, (stack f).drop (((member f).value.text text).length + 1), ?_,
      ?_⟩
    · rw [(Buffers.foldl_member h stack f).1, drop_eq_getElem_cons hlt]
      rfl
    · rw [List.getElem?_eq_getElem hlt, some_inj]
      rfl
  have hvalue : ∀ f, unescape ((member f).value.text text) = (member f).value.text text :=
    fun f => unescape_eq_self (h.proper f).plain.2
  refine ⟨ms.foldl (Buffers.member text) (.start stack), ?_, ?_, ?_⟩
  · rw [getLuksPassphrase, hdisk]
    simp only [hparse]
    rw [if_pos hobject, Buffers.scan_members h (fun _ hm => hm)]
    rfl
  · refine forall_congr' fun f => ?_
    obtain ⟨c, r, hb, hc⟩ := hbuffer f
    rw [hvalue f, string_iff (h.proper f).plain.1 hb, hc]
  · intro hended
    refine source_eq (fun f => (Buffers.foldl_member h stack f).2) (fun f => ?_) fun f => ?_
    · rw [hvalue f]
      exact (h.proper f).plain.1
    · obtain ⟨c, r, hb, hc⟩ := hbuffer f
      rw [hvalue f]
      exact ⟨r, hc.mp (hended f) ▸ hb⟩

/-! ## Runs -/

def diskOf (ms : List (String × Value)) : List Byte :=
  (documentText ms).map (fun c => BitVec.ofNat 8 c.toNat) ++
    "KRUN".toList.map (fun c => BitVec.ofNat 8 c.toNat) ++ leBytes 8 (documentText ms).length

def parserOf (ms : List (String × Value)) (text : List Char) : Option (List Token) :=
  if text = documentText ms then some (documentTokens ms) else none

def teeDocument : List (String × Value) :=
  [("workload_id", .string "w"), ("tee", .string "snp"), ("tee_data", .string "d"),
    ("attestation_url", .string "u")]

def teeMember (f : Field) : Member :=
  ((membersAt 1 teeDocument).find? fun m =>
    jsoneq (documentText teeDocument) m.key f.name).getD default

def zeroStack : Field → List Char := fun _ => List.replicate bufferSize nul

theorem teeDocument_members :
    TeeMembers (documentText teeDocument) (membersAt 1 teeDocument) teeMember := by
  have hquiet : ∀ f : Field, ∀ m ∈ membersAt 1 teeDocument, ∀ tok ∈ m.value :: m.inner,
      jsoneq (documentText teeDocument) tok f.name = false := by
    intro f
    cases f <;> decide +kernel
  refine ⟨fun m hm tok htok f => hquiet f m hm tok htok, ?_, ?_, ?_⟩
  all_goals
    intro f
    cases f <;> decide +kernel

theorem strings_iff_ended_zero :
    (∀ f, (zeroStack f).length = bufferSize) ∧
      getLuksPassphrase (parserOf teeDocument) (diskOf teeDocument) zeroStack =
        some (.snp (some "u".toList) (some "w".toList) (some "d".toList)) := by
  have hended : ∀ f, (zeroStack f)[((teeMember f).value.text (documentText teeDocument)).length]? =
      some nul := by
    intro f
    cases f <;> decide +kernel
  have hdisk : teeConfig (diskOf teeDocument) = some (some (documentText teeDocument)) := by
    decide +kernel
  have hparse : parserOf teeDocument (cstr (documentText teeDocument)) =
      some (documentObject teeDocument :: (membersAt 1 teeDocument).flatMap Member.tokens) := by
    decide +kernel
  have hstack : ∀ f, (zeroStack f).length = bufferSize := fun _ => length_replicate
  obtain ⟨b, hsource, -, hright⟩ :=
    strings_iff_ended hdisk hparse rfl teeDocument_members hstack
  refine ⟨hstack, ?_⟩
  rw [hsource, hright hended]
  decide +kernel

def dirtyStack : Field → List Char
  | .tee => List.replicate bufferSize nul
  | _ => List.replicate 9 'A' ++ List.replicate 247 nul

/-- The same disk with other stacks: the comparison fails, or the strings have a tail. And a string
that is a name is taken for a key, whatever the stack. -/
theorem strings_misread :
    getLuksPassphrase (parserOf teeDocument) (diskOf teeDocument)
        (fun _ => List.replicate bufferSize 'A') = some .nowhere ∧
      getLuksPassphrase (parserOf teeDocument) (diskOf teeDocument) dirtyStack =
        some (.snp (some "uAAAAAAAA".toList) (some "wAAAAAAAA".toList)
          (some "dAAAAAAAA".toList)) ∧
      getLuksPassphrase (parserOf teeDocument) (diskOf teeDocument) zeroStack =
        some (.snp (some "u".toList) (some "w".toList) (some "d".toList)) ∧
      let named : List (String × Value) := [("tee", .string "snp"), ("workload_id", .string "tee"),
        ("attestation_url", .string "u"), ("tee_data", .string "d")]
      getLuksPassphrase (parserOf named) (diskOf named) zeroStack = some .nowhere := by
  refine ⟨?_, ?_, ?_, ?_⟩ <;> decide +kernel

end Shelter.Init
