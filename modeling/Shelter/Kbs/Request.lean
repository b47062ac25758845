import Shelter.Init.Tokens

/-!
# The request to the attestation server

`kbs_request_marshal` prints the id of the workload into the text of an object, and this text into a
string of another object. It writes the quotes of the inner text with a backslash, but the id as it
is. `request_decodes_iff`: the server gets the id exactly if none of its characters needs an escape.
What makes this exact is the length: an escape in the id is read as one character, and a quote ends
the string, so that an id which is not plain comes back shorter.
-/

namespace Shelter.Kbs

open Init List

def teeStr : ℤ → Option CString
  | 0 => some "sev".toList
  | 1 => some "sgx".toList
  | 2 => some "snp".toList
  | 3 => some "tdx".toList
  | _ => none

/-- The text that a call which returns 0 writes. -/
def kbsRequestMarshal (tee : ℤ) (workloadId : CString) : Option (List Char) :=
  (teeStr tee).map fun teestr =>
    "\x7b\"extra-params\":\"\x7b\\\"workload_id\\\":\\\"".toList ++ workloadId ++
      "\\\"\x7d\",\"tee\":\"".toList ++ teestr ++ "\",\"version\":\"0.0.0\"\x7d".toList

/-! ## Objects of strings -/

/-- The text of a string up to its quote, and what comes behind that. -/
def scanString : List Char → Option (List Char × List Char)
  | '"' :: rest => some ([], rest)
  | '\\' :: 'u' :: a :: b :: c :: d :: rest =>
    if [a, b, c, d].all fun x => (Hex.digitValue x).isSome then
      (scanString rest).map fun p => ('\\' :: 'u' :: a :: b :: c :: d :: p.1, p.2)
    else none
  | '\\' :: c :: rest =>
    if c ∈ "\"\\/bfnrt".toList then (scanString rest).map fun p => ('\\' :: c :: p.1, p.2) else none
  | c :: rest => if ' ' ≤ c then (scanString rest).map fun p => (c :: p.1, p.2) else none
  | [] => none

/-- The members of an object, of which there are at most `turns`. -/
def decodeMembers : ℕ → List Char → Option (List (CString × CString))
  | turns + 1, '"' :: text =>
    match scanString text with
    | some (key, ':' :: '"' :: text) =>
      match scanString text with
      | some (value, ['}']) => some [(unescape key, unescape value)]
      | some (value, ',' :: text) =>
        (decodeMembers turns text).map ((unescape key, unescape value) :: ·)
      | _ => none
    | _ => none
  | _, _ => none

/-- Reads the text of an object whose values are strings, without blanks. -/
def decode : List Char → Option (List (CString × CString))
  | '{' :: text => decodeMembers text.length text
  | _ => none

def escape (s : CString) : List Char := s.flatMap fun c => if c = '"' then ['\\', '"'] else [c]

def printMember (m : CString × CString) (rest : List Char) : List Char :=
  '"' :: (escape m.1 ++ '"' :: ':' :: '"' :: (escape m.2 ++ '"' :: rest))

def printMembers : List (CString × CString) → List Char
  | [] => []
  | [m] => printMember m ['}']
  | m :: ms => printMember m (',' :: printMembers ms)

def print (ms : List (CString × CString)) : List Char := '{' :: printMembers ms

/-- There is no character in the string that only `escape` for all characters could write. -/
def Printable (s : CString) : Prop := ∀ c ∈ s, ' ' ≤ c ∧ c ≠ '\\'

instance (s : CString) : Decidable (Printable s) := List.decidableBAll _ s

def NeedsNoEscape (s : CString) : Prop := ∀ c ∈ s, ' ' ≤ c ∧ c ≠ '"' ∧ c ≠ '\\'

variable {s rest : List Char} {ms : List (CString × CString)}

theorem Printable.append (hs : Printable s) (h : Printable rest) : Printable (s ++ rest) :=
  forall_mem_append.mpr ⟨hs, h⟩

theorem scanString_cons {c : Char} (hc : ' ' ≤ c) (hquote : c ≠ '"') (hback : c ≠ '\\')
    (rest : List Char) :
    scanString (c :: rest) = (scanString rest).map fun p => (c :: p.1, p.2) := by
  rw [scanString]
  · exact if_pos hc
  all_goals
    intros
    simp_all

theorem scanString_escape_append (h : Printable s) (rest : List Char) :
    scanString (escape s ++ rest) = (scanString rest).map fun p => (escape s ++ p.1, p.2) := by
  induction s with
  | nil => simp [escape]
  | cons c s ih =>
    obtain ⟨⟨hc, hback⟩, hs⟩ := forall_mem_cons.mp h
    rw [escape, flatMap_cons]
    split_ifs with hquote
    · show Option.map _ (scanString (escape s ++ rest)) = _
      rw [ih hs, Option.map_map]
      rfl
    · show scanString (c :: (escape s ++ rest)) = _
      rw [scanString_cons hc hquote hback, ih hs, Option.map_map]
      rfl

theorem scanString_escape (h : Printable s) (rest : List Char) :
    scanString (escape s ++ '"' :: rest) = some (escape s, rest) := by
  rw [scanString_escape_append h, scanString, Option.map_some, append_nil]

theorem unescape_escape_append (h : Printable s) (rest : List Char) :
    unescape (escape s ++ rest) = s ++ unescape rest := by
  induction s with
  | nil => rfl
  | cons c s ih =>
    obtain ⟨⟨-, hback⟩, hs⟩ := forall_mem_cons.mp h
    rw [escape, flatMap_cons]
    split_ifs with hquote
    · show '"' :: unescape (escape s ++ rest) = _
      rw [ih hs, hquote]
      rfl
    · exact (unescape_cons hback _).trans (congrArg _ (ih hs))

theorem unescape_escape (h : Printable s) : unescape (escape s) = s := by
  simpa only [append_nil, unescape] using unescape_escape_append h []

theorem escape_eq_self (h : '"' ∉ s) : escape s = s := by
  have hsingle : escape s = s.flatMap fun c => [c] :=
    flatMap_congr fun c hc => if_neg (by rintro rfl; exact h hc)
  rw [hsingle, flatMap_singleton']

theorem decodeMembers_print (hne : ms ≠ []) (h : ∀ m ∈ ms, Printable m.1 ∧ Printable m.2)
    {turns : ℕ} (hturns : ms.length ≤ turns) : decodeMembers turns (printMembers ms) = some ms := by
  induction ms generalizing turns with
  | nil => exact absurd rfl hne
  | cons m ms ih =>
    obtain ⟨⟨hkey, hvalue⟩, hms⟩ := forall_mem_cons.mp h
    obtain ⟨turns, rfl⟩ := Nat.exists_eq_add_one_of_ne_zero (Nat.ne_zero_of_lt hturns)
    cases ms with
    | nil =>
      simp [printMembers, printMember, decodeMembers, scanString_escape hkey,
        scanString_escape hvalue, unescape_escape hkey, unescape_escape hvalue]
    | cons m' ms =>
      have hrest := ih (by simp) hms (by simpa using hturns)
      simp [printMembers, printMember, decodeMembers, scanString_escape hkey,
        scanString_escape hvalue, unescape_escape hkey, unescape_escape hvalue, hrest]

theorem length_printMembers (ms : List (CString × CString)) :
    ms.length ≤ (printMembers ms).length := by
  induction ms with
  | nil => exact le_rfl
  | cons m ms ih =>
    cases ms <;> simp only [printMembers, printMember, length_cons, length_append] at ih ⊢ <;> omega

theorem decode_print (hne : ms ≠ []) (h : ∀ m ∈ ms, Printable m.1 ∧ Printable m.2) :
    decode (print ms) = some ms :=
  decodeMembers_print hne h (length_printMembers ms)

theorem kbsRequestMarshal_eq {tee : ℤ} {name id : CString} (hname : teeStr tee = some name)
    (hid : '"' ∉ id) :
    kbsRequestMarshal tee id = some (print [("extra-params".toList,
      print [("workload_id".toList, id)]), ("tee".toList, name),
      ("version".toList, "0.0.0".toList)]) := by
  have hinner : escape (print [("workload_id".toList, id)]) =
      "\x7b\\\"workload_id\\\":\\\"".toList ++ (id ++ "\\\"\x7d".toList) := by
    show escape ("\x7b\"workload_id\":\"".toList ++ (escape id ++ "\"\x7d".toList)) = _
    rw [escape, flatMap_append, flatMap_append, ← escape, ← escape, escape_eq_self hid,
      escape_eq_self hid]
    rfl
  have hquote : escape name = name := by
    unfold teeStr at hname
    split at hname <;> cases hname <;> rfl
  unfold kbsRequestMarshal
  rw [hname, Option.map_some]
  simp only [append_assoc]
  show _ = some ("\x7b\"extra-params\":\"".toList ++ (escape (print _) ++
    ("\",\"tee\":\"".toList ++ (escape name ++ "\",\"version\":\"0.0.0\"\x7d".toList))))
  rw [hinner, hquote]
  simp only [append_assoc]
  rfl

theorem request_decodes {tee : ℤ} {name id : CString} (hname : teeStr tee = some name)
    (hid : NeedsNoEscape id) :
    ∃ text extra, kbsRequestMarshal tee id = some text ∧
      decode text = some [("extra-params".toList, extra), ("tee".toList, name),
        ("version".toList, "0.0.0".toList)] ∧
      decode extra = some [("workload_id".toList, id)] := by
  have hquote : '"' ∉ id := fun hmem => (hid _ hmem).2.1 rfl
  have hprintable : Printable id := fun c hc => ⟨(hid c hc).1, (hid c hc).2.2⟩
  have hinner : Printable (print [("workload_id".toList, id)]) := by
    show Printable ("\x7b\"workload_id\":\"".toList ++ (escape id ++ "\"\x7d".toList))
    rw [escape_eq_self hquote]
    exact .append (by decide) (.append hprintable (by decide))
  have htee : Printable name := by
    unfold teeStr at hname
    split at hname <;> cases hname <;> decide
  refine ⟨_, _, kbsRequestMarshal_eq hname hquote, decode_print (by simp) ?_,
    decode_print (by simp) ?_⟩
  · simp only [forall_mem_cons]
    exact ⟨⟨by decide, hinner⟩, ⟨by decide, htee⟩, ⟨by decide, by decide⟩, nofun⟩
  · exact forall_mem_singleton.mpr ⟨(by decide : Printable "workload_id".toList), hprintable⟩

/-! ## What comes back is no longer than what was printed -/

theorem length_unescape_le (s : List Char) : (unescape s).length ≤ s.length := by
  fun_induction unescape s <;> simp only [length_cons, length_nil] <;> omega

theorem length_unescape_escaped {c : Char} (hc : c ≠ 'u') (s : List Char) :
    (unescape ('\\' :: c :: s)).length = (unescape s).length + 1 := by
  rw [unescape.eq_def]
  split <;> simp_all
  next hno heq => exact absurd heq.2.symm (hno c s heq.1.symm)

theorem scanString_escaped {c : Char} (hc : c ≠ 'u') (s : List Char) :
    scanString ('\\' :: c :: s) = if c ∈ "\"\\/bfnrt".toList then
      (scanString s).map fun p => ('\\' :: c :: p.1, p.2) else none := by
  rw [scanString]
  rintro a b c' d rest rfl
  exact absurd rfl hc

/-- The string with the id in it, up to the quote that was printed behind it at the latest. -/
theorem scanString_id (id t : List Char) {raw : List Char}
    (h : scanString (id ++ '\\' :: '"' :: '}' :: '"' :: t) = some (raw, rest)) :
    (unescape raw).length ≤ id.length + 2 ∧
      ((unescape raw).length = id.length + 2 → NeedsNoEscape id) := by
  fun_induction scanString id generalizing raw rest with
  | case1 id =>
    cases h
    simp [unescape]
  | case2 a b c d id hall ih =>
    simp only [cons_append, scanString, hall, if_true] at h
    obtain ⟨⟨raw', rest'⟩, hscan, ⟨⟩⟩ := Option.map_eq_some_iff.mp h
    have hle := (ih hscan).1
    simp only [unescape, length_cons]
    exact ⟨by omega, fun h => by omega⟩
  | case3 a b c d id hall => simp [scanString, hall] at h
  | case4 c id hu hmem ih =>
    have hc : c ≠ 'u' := by rintro rfl; exact absurd hmem (by decide)
    rw [cons_append, cons_append, scanString_escaped hc, if_pos hmem] at h
    obtain ⟨⟨raw', rest'⟩, hscan, ⟨⟩⟩ := Option.map_eq_some_iff.mp h
    have hle := (ih hscan).1
    rw [length_unescape_escaped hc]
    simp only [length_cons]
    exact ⟨by omega, fun h => by omega⟩
  | case5 c id hu hmem =>
    by_cases hc : c = 'u'
    · -- four digits would have to reach into what was printed behind the id
      subst hc
      rcases id with _ | ⟨a, _ | ⟨b, _ | ⟨c, _ | ⟨d, id⟩⟩⟩⟩
      case cons.cons.cons.cons => exact (hu a b c d id rfl rfl).elim
      all_goals simp [scanString, Hex.digitValue] at h
    · rw [cons_append, cons_append, scanString_escaped hc, if_neg hmem] at h
      cases h
  | case6 c id hquote hu hescape hspace ih =>
    by_cases hc : c = '\\'
    · subst hc
      cases id with
      | nil =>
        -- the backslash behind the id is the escaped one, and its quote ends the string
        cases h
        simp [unescape]
      | cons a id => exact (hescape a id rfl rfl).elim
    · rw [cons_append, scanString_cons hspace hquote hc] at h
      obtain ⟨⟨raw', rest'⟩, hscan, ⟨⟩⟩ := Option.map_eq_some_iff.mp h
      obtain ⟨hle, hall⟩ := ih hscan
      rw [unescape_cons hc]
      simp only [length_cons]
      exact ⟨by omega, fun heq => forall_mem_cons.mpr ⟨⟨hspace, hquote, hc⟩, hall (by omega)⟩⟩
  | case7 c id hquote hu hescape hspace =>
    have hc : c ≠ '\\' := by rintro rfl; exact hspace (by decide)
    rw [cons_append, scanString, if_neg hspace] at h
    · cases h
    · exact hquote
    all_goals exact fun _ _ => by simp [hc]
  | case8 =>
    cases h
    exact ⟨le_rfl, fun _ => forall_mem_nil _⟩

theorem length_scanString {raw : List Char} (h : scanString s = some (raw, rest)) :
    s.length = raw.length + 1 + rest.length := by
  fun_induction scanString s generalizing raw rest with
  | case1 =>
    cases h
    simp [Nat.add_comm]
  | case2 _ _ _ _ _ _ ih | case4 _ _ _ _ ih | case6 _ _ _ _ _ _ ih =>
    obtain ⟨⟨raw', rest'⟩, hscan, ⟨⟩⟩ := Option.map_eq_some_iff.mp h
    have := ih hscan
    simp only [length_cons] at this ⊢
    omega
  | _ => cases h

/-- The value of the first member comes from a string that is not the end of the text. -/
theorem decode_first (key text : List Char) {k v : CString} (hkey : Printable key)
    (h : decode ('{' :: '"' :: (escape key ++ '"' :: ':' :: '"' :: text)) = some ((k, v) :: ms)) :
    ∃ value rest, scanString text = some (value, rest) ∧ rest ≠ [] ∧ unescape value = v := by
  simp only [decode, length_cons, decodeMembers, scanString_escape hkey] at h
  split at h
  · next value hscan =>
    simp only [Option.some.injEq, cons.injEq, Prod.mk.injEq] at h
    exact ⟨value, _, hscan, by simp, h.1.2⟩
  · next value text' hscan =>
    obtain ⟨ms', -, heq⟩ := Option.map_eq_some_iff.mp h
    simp only [cons.injEq, Prod.mk.injEq] at heq
    exact ⟨value, _, hscan, by simp, heq.1.2⟩
  · cases h

theorem needsNoEscape_of_decodes {tee : ℤ} {id text extra : CString}
    (htext : kbsRequestMarshal tee id = some text)
    (hdecode : decode text = some (("extra-params".toList, extra) :: ms))
    (hextra : decode extra = some [("workload_id".toList, id)]) : NeedsNoEscape id := by
  obtain ⟨teestr, -, rfl⟩ := Option.map_eq_some_iff.mp htext
  simp only [append_assoc] at hdecode
  have hinner : Printable "\x7b\"workload_id\":\"".toList := by decide
  obtain ⟨value, rest, hscan, -, rfl⟩ := decode_first "extra-params".toList
    (escape "\x7b\"workload_id\":\"".toList ++ (id ++ _)) (by decide) hdecode
  rw [scanString_escape_append hinner] at hscan
  obtain ⟨⟨raw, rest⟩, hraw, heq⟩ := Option.map_eq_some_iff.mp hscan
  cases heq
  rw [unescape_escape_append hinner] at hextra
  obtain ⟨hle, hplain⟩ := scanString_id id _ hraw
  obtain ⟨v, rest', hv, hne, heq⟩ := decode_first "workload_id".toList (unescape raw)
    (by decide) hextra
  have hlen := length_scanString hv
  have hid : id.length ≤ v.length := heq ▸ length_unescape_le v
  have hpos := length_pos_of_ne_nil hne
  exact hplain (by omega)

/-- The server gets the id and the name of the TEE exactly if the id needs no escape. -/
theorem request_decodes_iff {tee : ℤ} {name id : CString} (hname : teeStr tee = some name) :
    (∃ text extra, kbsRequestMarshal tee id = some text ∧
      decode text = some [("extra-params".toList, extra), ("tee".toList, name),
        ("version".toList, "0.0.0".toList)] ∧
      decode extra = some [("workload_id".toList, id)]) ↔
    ∀ c ∈ id, ' ' ≤ c ∧ c ≠ '"' ∧ c ≠ '\\' := by
  refine ⟨?_, request_decodes hname⟩
  rintro ⟨text, extra, htext, hdecode, hextra⟩
  exact needsNoEscape_of_decodes htext hdecode hextra

theorem request_decodes_iff_workload :
    ∃ text extra, kbsRequestMarshal 2 "w1".toList = some text ∧
      decode text = some [("extra-params".toList, extra), ("tee".toList, "snp".toList),
        ("version".toList, "0.0.0".toList)] ∧
      decode extra = some [("workload_id".toList, "w1".toList)] :=
  (request_decodes_iff rfl).mpr (by simp)

/-- An id with quotes makes the text malformed, and one that writes them with a backslash can add a
member. -/
theorem request_forged :
    (kbsRequestMarshal 2 "a\"".toList).bind decode = none ∧
      ∃ text extra rest, kbsRequestMarshal 2 "a\\\",\\\"x\\\":\\\"b".toList = some text ∧
        decode text = some (("extra-params".toList, extra) :: rest) ∧
        decode extra = some [("workload_id".toList, "a".toList), ("x".toList, "b".toList)] := by
  refine ⟨by decide, _, _, _, rfl, rfl, by decide⟩

end Shelter.Kbs
