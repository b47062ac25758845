import Shelter.Memory.FlatMemory
import Shelter.Smbios.Table

/-!
# Reading the SMBIOS table

What a guest does with the table, after the SMBIOS specification: it checks the entry point, walks
from structure to structure, where the strings of a structure end with the first two null bytes in a
row, and finds a string by its number, where a null byte in place of a string ends the set.

`smbios_read_iff` compares the reader with `setup_smbios`: the structures and the OEM strings are
read back exactly if no OEM string is empty.
-/

open Bytes

namespace Shelter.Smbios

open List

/-! ## The reader -/

section Reader

/-- A structure as the reader sees it: its record, and the text that follows the record. -/
structure Structure where
  type : Byte
  record : List Byte
  strings : List Byte
  deriving DecidableEq, Repr

def readStructure (bytes : List Byte) : Option (Structure × List Byte) :=
  match bytes with
  | type :: length :: _ :: _ :: _ =>
    if length.toNat < 4 ∨ bytes.length < length.toNat then none
    else
      let strings := bytes.drop length.toNat
      (StringSet.afterEnd 0 strings).map fun rest =>
        (⟨type, bytes.take length.toNat, strings⟩, rest)
  | _ => none

/-- The structures up to the end-of-table one, and what follows it. -/
def readStructures : ℕ → List Byte → Option (List Structure × List Byte)
  | 0, _ => none
  | fuel + 1, bytes => do
    let (s, rest) ← readStructure bytes
    if s.type = 127 then some ([s], rest)
    else
      let (structures, rest) ← readStructures fuel rest
      some (s :: structures, rest)

/-- The strings of a type 11 structure, as many as its record says; `none` is a string that is not
there. -/
def oemStringsOf (s : Structure) : List (Option (List Byte)) :=
  match s.record[4]? with
  | some count => (List.range count.toNat).map fun n => StringSet.nth 0 n s.strings
  | none => []

variable {M : Type} [GuestMemory M]

/-- The address and the size of the table, from an entry point with the right anchor, length and
checksum. -/
def readEntryPoint (m : M) (addr : ℕ) : Option (ℕ × ℕ) := do
  let bytes ← readSlice m addr 24
  if bytes.take 5 = sm3Anchor ∧ bytes[6]? = some 24 ∧
      bytes.foldl (fun checksum i => checksum + i) 0 = 0 then
    some (leNat ((bytes.drop 16).take 8), leNat ((bytes.drop 12).take 4))
  else none

end Reader

/-- What the guest is to find: the structures, to the end of the table, and the OEM strings. -/
def SmbiosRead {M : Type} [GuestMemory M] (m : M) (startAddr : ℕ)
    (oemStrings : Option (List CString)) : Prop :=
  ∃ addr size bytes structures, readEntryPoint m startAddr = some (addr, size) ∧
    readSlice m addr size = some bytes ∧
    readStructures bytes.length bytes = some (structures, []) ∧
    structures.map Structure.type = [0, 1] ++ (if oemStrings.isSome then [11] else []) ++ [127] ∧
    ∀ s ∈ structures, s.type = 11 →
      oemStringsOf s = (oemStrings.getD []).map fun string => some string.bytes

/-! ## Structures -/

section Structures

variable {type length h₀ h₁ : Byte} {fields text rest bytes rest' : List Byte} {s : Structure}
  {fuel : ℕ} {structures : List Structure}

theorem readStructure_append
    (hlength : length.toNat = (type :: length :: h₀ :: h₁ :: fields).length) (text : List Byte) :
    readStructure ((type :: length :: h₀ :: h₁ :: fields) ++ text) =
      (StringSet.afterEnd 0 text).map fun rest =>
        (⟨type, type :: length :: h₀ :: h₁ :: fields, text⟩, rest) := by
  have hfour : ¬ (length.toNat < 4 ∨
      ((type :: length :: h₀ :: h₁ :: fields) ++ text).length < length.toNat) := by
    rw [hlength, length_append]
    simp only [length_cons]
    omega
  unfold readStructure
  simp only [cons_append]
  rw [← cons_append, ← cons_append, ← cons_append, ← cons_append, if_neg hfour,
    hlength, drop_left, take_left]

theorem readStructures_cons (h : readStructure bytes = some (s, rest)) (hs : s.type ≠ 127) :
    readStructures (fuel + 1) bytes = (readStructures fuel rest).map fun r => (s :: r.1, r.2) := by
  simp only [readStructures, h, Option.bind_eq_bind, Option.bind_some, if_neg hs]
  cases readStructures fuel rest <;> rfl

theorem readStructures_last (h : readStructure bytes = some (s, rest)) (hs : s.type = 127) :
    readStructures (fuel + 1) bytes = some ([s], rest) := by
  simp only [readStructures, h, Option.bind_eq_bind, Option.bind_some, if_pos hs]

theorem readStructures_head (h : readStructures fuel bytes = some (structures, rest)) :
    ∃ s rest', readStructure bytes = some (s, rest') ∧ s ∈ structures := by
  cases fuel with
  | zero => cases h
  | succ fuel =>
    simp only [readStructures, Option.bind_eq_bind, Option.bind_eq_some_iff] at h
    obtain ⟨⟨s, rest'⟩, hs, h⟩ := h
    refine ⟨s, rest', hs, ?_⟩
    split_ifs at h
    · cases h
      exact mem_singleton_self s
    · obtain ⟨r, _, ⟨⟩⟩ := Option.bind_eq_some_iff.mp h
      exact mem_cons_self

end Structures

/-! ## The table that is written -/

section Table

/-- The structure that the reader makes of a record and its strings. -/
def structureOf (type : Byte) (record : List Byte) (strings : List (List Byte)) (rest : List Byte) :
    Structure :=
  ⟨type, record, StringSet.encode 0 strings ++ 0 :: rest⟩

variable {strings : List (List Byte)} {rest : List Byte}

theorem readStructure_strings {type length h₀ h₁ : Byte} {fields : List Byte}
    (hlength : length.toNat = (type :: length :: h₀ :: h₁ :: fields).length)
    (hnil : strings ≠ []) (hz : ∀ s ∈ strings, 0 ∉ s) (hne : ∀ s ∈ strings, s ≠ [])
    (rest : List Byte) :
    readStructure (structureBytes (type :: length :: h₀ :: h₁ :: fields) strings ++ rest) =
      some (structureOf type (type :: length :: h₀ :: h₁ :: fields) strings rest, rest) := by
  obtain ⟨s, strings, rfl⟩ := exists_cons_of_ne_nil hnil
  rw [structureBytes, append_assoc, append_assoc, readStructure_append hlength]
  exact congrArg (Option.map _) (StringSet.afterEnd_encode hz hne rest)

theorem readStructures_start (fuel : ℕ) (rest : List Byte) :
    readStructures (fuel + 2) (structureBytes (biosInfo 1 2 3) biosStrings ++
        (structureBytes (systemInfo 1 2) systemStrings ++ rest)) =
      (readStructures fuel rest).map fun r => (structureOf 0 (biosInfo 1 2 3) biosStrings
        (structureBytes (systemInfo 1 2) systemStrings ++ rest) ::
          structureOf 1 (systemInfo 1 2) systemStrings rest :: r.1, r.2) := by
  have hbios : readStructure (structureBytes (biosInfo 1 2 3) biosStrings ++ _) = _ :=
    readStructure_strings rfl (by decide) (by decide +kernel) (by decide +kernel)
      (structureBytes (systemInfo 1 2) systemStrings ++ rest)
  have hsystem : readStructure (structureBytes (systemInfo 1 2) systemStrings ++ _) = _ :=
    readStructure_strings rfl (by decide) (by decide +kernel) (by decide +kernel) rest
  rw [readStructures_cons hbios (show (0 : Byte) ≠ 127 by decide),
    readStructures_cons hsystem (show (1 : Byte) ≠ 127 by decide), Option.map_map]
  rfl

theorem readStructure_end : readStructure (endOfTable ++ [0, 0]) =
    some (⟨127, endOfTable, [0, 0]⟩, []) :=
  readStructure_append rfl _

theorem oemStringsOf_structureOf (hlen : strings.length < 256) (hz : ∀ s ∈ strings, 0 ∉ s)
    (rest : List Byte) :
    oemStringsOf (structureOf 11 (oemStringsInfo (BitVec.ofNat 8 strings.length)) strings rest) =
      strings.map some ↔ ∀ s ∈ strings, s ≠ [] := by
  have hcount : (BitVec.ofNat 8 strings.length).toNat = strings.length := by
    exact Nat.mod_eq_of_lt hlen
  have hread : oemStringsOf
      (structureOf 11 (oemStringsInfo (BitVec.ofNat 8 strings.length)) strings rest) =
      (List.range strings.length).map fun n =>
        StringSet.nth 0 n (StringSet.encode 0 strings ++ 0 :: rest) := by
    show (List.range (BitVec.ofNat 8 strings.length).toNat).map _ = _
    rw [hcount]
    rfl
  rw [hread]
  constructor
  · intro h s hs hempty
    subst hempty
    -- the walk stops at the empty string
    obtain ⟨n, hn, hget⟩ := getElem_of_mem hs
    have hstring : strings[n]? = some [] :=
      (List.getElem?_eq_getElem hn).trans (congrArg some hget)
    have hnth := congrArg (fun l => l[n]?) h
    simp only [List.getElem?_map, List.getElem?_range hn, Option.map_some, hstring,
      StringSet.nth_encode_empty hz (0 :: rest) hstring] at hnth
    cases hnth
  · intro hne
    refine ext_getElem (by simp) fun n h₁ h₂ => ?_
    have hn : n < strings.length := by simpa using h₂
    simp only [getElem_map, getElem_range]
    exact StringSet.nth_encode hz hne (0 :: rest) (List.getElem?_eq_getElem hn)

variable {oemStrings : Option (List (List Byte))}

theorem readStructures_tableBytes (fuel : ℕ) (hsome : ∀ strings ∈ oemStrings, strings ≠ [])
    (hz : ∀ strings ∈ oemStrings, ∀ s ∈ strings, 0 ∉ s)
    (hne : ∀ strings ∈ oemStrings, ∀ s ∈ strings, s ≠ []) :
    ∃ structures, readStructures (fuel + 4) (tableBytes oemStrings) = some (structures, []) ∧
      structures.map Structure.type = [0, 1] ++ (if oemStrings.isSome then [11] else []) ++ [127] ∧
      ∀ s ∈ structures, s.type = 11 → ∃ strings ∈ oemStrings,
        s = structureOf 11 (oemStringsInfo (BitVec.ofNat 8 strings.length)) strings
          (endOfTable ++ [0, 0]) := by
  have h₀ : (0 : Byte) ≠ 11 := by decide
  have h₁ : (1 : Byte) ≠ 11 := by decide
  have h₁₂₇ : (127 : Byte) ≠ 11 := by decide
  unfold tableBytes
  rw [readStructures_start]
  cases oemStrings with
  | none =>
    refine ⟨_, congrArg (Option.map _) (readStructures_last readStructure_end rfl), rfl, ?_⟩
    exact forall_mem_cons.mpr ⟨(absurd · h₀), forall_mem_cons.mpr ⟨(absurd · h₁),
      forall_mem_singleton.mpr (absurd · h₁₂₇)⟩⟩
  | some strings =>
    have h11 : readStructures (fuel + 2) (structureBytes
        (oemStringsInfo (BitVec.ofNat 8 strings.length)) strings ++ (endOfTable ++ [0, 0])) = _ :=
      readStructures_cons (readStructure_strings rfl (hsome strings rfl) (hz strings rfl)
        (hne strings rfl) _) (show (11 : Byte) ≠ 127 by decide)
    rw [readStructures_last readStructure_end rfl] at h11
    refine ⟨_, congrArg (Option.map _) h11, rfl, ?_⟩
    exact forall_mem_cons.mpr ⟨(absurd · h₀), forall_mem_cons.mpr ⟨(absurd · h₁),
      forall_mem_cons.mpr ⟨fun _ => ⟨strings, rfl, rfl⟩,
        forall_mem_singleton.mpr (absurd · h₁₂₇)⟩⟩⟩

theorem mem_of_readStructures {fuel : ℕ} {structures : List Structure}
    (h : readStructures (fuel + 2) (tableBytes (some strings)) = some (structures, rest)) :
    structureOf 11 (oemStringsInfo (BitVec.ofNat 8 strings.length)) strings (endOfTable ++ [0, 0]) ∈
      structures := by
  rw [tableBytes, readStructures_start] at h
  obtain ⟨r, hr, heq⟩ := Option.map_eq_some_iff.mp h
  obtain ⟨s, rest', hs, hmem⟩ := readStructures_head hr
  rw [oemBytes, structureBytes, append_assoc, append_assoc] at hs
  obtain ⟨_, -, hs⟩ := Option.map_eq_some_iff.mp ((readStructure_append rfl _).symm.trans hs)
  cases heq
  cases hs
  exact mem_cons_of_mem _ (mem_cons_of_mem _ hmem)

end Table

/-! ## The entry point -/

section EntryPoint

def byteSum (l : List Byte) : Byte := l.foldl (fun checksum i => checksum + i) 0

theorem byteSum_append (l l' : List Byte) : byteSum (l ++ l') = byteSum l + byteSum l' := by
  have hsum : ∀ l, byteSum l = l.sum := fun l => sum_eq_foldl.symm
  rw [hsum, hsum, hsum, sum_append]

theorem byteSum_cons (b : Byte) (l : List Byte) : byteSum (b :: l) = b + byteSum l := by
  rw [← singleton_append, byteSum_append]
  exact congrArg (· + byteSum l) (BitVec.zero_add b)

theorem byteSum_new (size : U32) (addr : U64) : byteSum (Entrypoint30.new size addr).bytes = 0 := by
  have hsum : ∀ ep : Entrypoint30, byteSum ep.bytes =
      byteSum ep.anchor + (ep.checksum + byteSum ([ep.length, ep.majorVersion, ep.minorVersion,
        ep.docrev, ep.revision, ep.reserved] ++ leBytes 4 ep.tableMaxSize.toNat ++
          leBytes 8 ep.tableAddr.toNat)) := by
    intro ep
    unfold Entrypoint30.bytes
    rw [append_assoc, append_assoc, byteSum_append, cons_append, byteSum_cons,
      append_assoc]
  have hchecksum : ∀ ep : Entrypoint30, ep.computeChecksum = ~~~(byteSum ep.bytes) + 1 :=
    fun _ => rfl
  rw [hsum]
  simp only [Entrypoint30.new, hchecksum]
  rw [hsum]
  generalize byteSum sm3Anchor = x
  generalize byteSum _ = y
  bv_omega

theorem bytes_new (size : U32) (addr : U64) : ∃ c, (Entrypoint30.new size addr).bytes =
    (sm3Anchor ++ [c, 24, 3, 0, 0, 1, 0]) ++ (leBytes 4 size.toNat ++ leBytes 8 addr.toNat) := by
  exact ⟨_, append_assoc _ _ _⟩

theorem entryFields {c : Byte} {size addr : ℕ} (hsize : size < 2 ^ 32) (haddr : addr < 2 ^ 64)
    {bytes : List Byte} (hbytes : bytes = (sm3Anchor ++ [c, 24, 3, 0, 0, 1, 0]) ++
      (leBytes 4 size ++ leBytes 8 addr)) :
    bytes.take 5 = sm3Anchor ∧ bytes[6]? = some 24 ∧
      leNat ((bytes.drop 16).take 8) = addr ∧ leNat ((bytes.drop 12).take 4) = size := by
  have hlen : (sm3Anchor ++ [c, 24, 3, 0, 0, 1, 0]).length = 12 := rfl
  have hdrop : bytes.drop 12 = leBytes 4 size ++ leBytes 8 addr := by
    rw [hbytes, ← hlen, drop_left]
  have hdrop' : bytes.drop 16 = leBytes 8 addr := by
    rw [show 16 = 12 + 4 from rfl, ← drop_drop, hdrop]
    exact drop_left' (length_leBytes 4 size)
  refine ⟨?_, ?_, ?_, ?_⟩
  · rw [hbytes, append_assoc]
    exact take_left' rfl
  · rw [hbytes]
    rfl
  · rw [hdrop', take_of_length_le (by simp), leNat_leBytes]
    exact Nat.mod_eq_of_lt haddr
  · rw [hdrop, take_left' (length_leBytes 4 size), leNat_leBytes]
    exact Nat.mod_eq_of_lt hsize

variable {M : Type} [GuestMemory M] [LawfulGuestMemory M]

theorem readEntryPoint_written {m : M} {startAddr : ℕ} {table : List Byte}
    (h : Written m startAddr table) :
    readEntryPoint m startAddr = some (startAddr + Entrypoint30.size, table.length) := by
  have hread : readSlice m startAddr 24 = some (bytesAt m startAddr Entrypoint30.size) :=
    readSlice_eq_some (by omega) (h.mapped.mono le_rfl (by unfold Entrypoint30.size; omega))
  have hsum := byteSum_new (BitVec.ofNat 32 table.length)
    (BitVec.ofNat 64 (startAddr + Entrypoint30.size))
  obtain ⟨c, hbytes⟩ := bytes_new (BitVec.ofNat 32 table.length)
    (BitVec.ofNat 64 (startAddr + Entrypoint30.size))
  rw [← h.entryPoint] at hsum hbytes
  rw [BitVec.toNat_ofNat, BitVec.toNat_ofNat, Nat.mod_eq_of_lt h.small,
    Nat.mod_eq_of_lt h.below] at hbytes
  obtain ⟨hanchor, hlength, haddr, hsize⟩ := entryFields h.small h.below hbytes
  unfold readEntryPoint
  rw [hread]
  simp only [Option.bind_eq_bind, Option.bind_some]
  rw [if_pos ⟨hanchor, hlength, hsum⟩, haddr, hsize]

end EntryPoint

/-! ## The reader and the writer -/

section Result

variable {M : Type} [GuestMemory M] [LawfulGuestMemory M]

theorem krunSetSmbiosOemStrings_ne_nil {isUtf8 : List Byte → Bool} {ctxExists : Bool}
    {args : Option (List (Option CString))} {strings : List CString}
    (h : krunSetSmbiosOemStrings isUtf8 ctxExists args = .ok (some strings)) : strings ≠ [] := by
  unfold krunSetSmbiosOemStrings at h
  split at h
  next => cases h
  next ptrs =>
    dsimp only at h
    split_ifs at h with hutf8 hctx hempty
    · cases Except.ok.inj h
    · rw [Option.some.inj (Except.ok.inj h)] at hempty
      rintro rfl
      exact hempty rfl

theorem readSlice_written {m : M} {startAddr : ℕ} {table : List Byte}
    (h : Written m startAddr table) (hne : table ≠ []) :
    readSlice m (startAddr + Entrypoint30.size) table.length = some table := by
  have hmapped : Mapped m (startAddr + Entrypoint30.size) table.length :=
    h.mapped.mono (Nat.le_add_right _ _) (by omega)
  rw [readSlice_eq_some (length_pos_iff.mpr hne) hmapped, h.contents]

variable (oemStrings : Option (List (List Byte)))

theorem exists_length_tableBytes :
    ∃ n, (tableBytes oemStrings).length = n + 4 := by
  have hend : endOfTable.length = 4 := rfl
  refine ⟨(tableBytes oemStrings).length - 4, ?_⟩
  unfold tableBytes
  simp only [length_append, hend]
  omega

theorem tableBytes_ne_nil : tableBytes oemStrings ≠ [] := by
  obtain ⟨n, hn⟩ := exists_length_tableBytes oemStrings
  intro hnil
  rw [hnil] at hn
  cases hn

variable {oemStrings : Option (List CString)} {m m' : M} {startAddr : U64} {size : ℕ}

theorem nonempty_of_smbiosRead
    (hsetup : setupSmbios m startAddr (oemStrings.map (List.map CString.bytes)) = .ok (m', size))
    (hread : SmbiosRead m' startAddr.toNat oemStrings) :
    ∀ s ∈ oemStrings.getD [], s.bytes ≠ [] := by
  obtain ⟨hwritten, hlen⟩ := setupSmbios_ok hsetup
  have hentry := readEntryPoint_written hwritten
  have hslice := readSlice_written hwritten (tableBytes_ne_nil _)
  intro s hs
  obtain ⟨addr, size, bytes, structures, hentry', hslice', hwalk, _, hoem⟩ := hread
  cases hentry.symm.trans hentry'
  cases hslice.symm.trans hslice'
  cases oemStrings with
  | none => exact absurd hs not_mem_nil
  | some strings =>
    have hread := hoem _ (mem_of_readStructures hwalk) rfl
    have hz : ∀ t ∈ strings.map CString.bytes, 0 ∉ t :=
      forall_mem_map.mpr fun c _ => c.noNul
    have hmap : (strings.map fun string => some string.bytes) =
        (strings.map CString.bytes).map some := (map_map ..).symm
    rw [Option.getD_some, hmap] at hread
    exact (oemStringsOf_structureOf (hlen _ rfl) hz _).mp hread _ (mem_map_of_mem hs)

theorem smbiosRead_of_nonempty (hsome : oemStrings ≠ some [])
    (hsetup : setupSmbios m startAddr (oemStrings.map (List.map CString.bytes)) = .ok (m', size))
    (hfull : ∀ s ∈ oemStrings.getD [], s.bytes ≠ []) :
    SmbiosRead m' startAddr.toNat oemStrings := by
  obtain ⟨hwritten, hlen⟩ := setupSmbios_ok hsetup
  obtain ⟨n, hn⟩ := exists_length_tableBytes (oemStrings.map (List.map CString.bytes))
  have hentry := readEntryPoint_written hwritten
  have hslice := readSlice_written hwritten (tableBytes_ne_nil _)
  have hz : ∀ strings ∈ oemStrings.map (List.map CString.bytes), ∀ s ∈ strings, 0 ∉ s := by
    intro strings hs
    obtain ⟨cs, _, rfl⟩ := Option.map_eq_some_iff.mp hs
    exact forall_mem_map.mpr fun c _ => c.noNul
  have hnonempty : ∀ strings ∈ oemStrings.map (List.map CString.bytes), ∀ s ∈ strings, s ≠ [] := by
    intro strings hs
    obtain ⟨cs, hcs, rfl⟩ := Option.map_eq_some_iff.mp hs
    exact forall_mem_map.mpr fun c hc => hfull c (by rw [hcs]; exact hc)
  have hnil : ∀ strings ∈ oemStrings.map (List.map CString.bytes), strings ≠ [] := by
    intro strings hs
    obtain ⟨cs, rfl, rfl⟩ := Option.map_eq_some_iff.mp hs
    exact fun hnil => hsome (congrArg some (map_eq_nil_iff.mp hnil))
  obtain ⟨structures, hwalk, htypes, hoem⟩ := readStructures_tableBytes n hnil hz hnonempty
  rw [← hn] at hwalk
  rw [Option.isSome_map] at htypes
  refine ⟨_, _, _, structures, hentry, hslice, hwalk, htypes, fun s hs htype => ?_⟩
  obtain ⟨strings, hstrings, rfl⟩ := hoem s hs htype
  rw [(oemStringsOf_structureOf (hlen strings hstrings) (hz strings hstrings) _).mpr
    (hnonempty strings hstrings)]
  obtain ⟨cs, rfl, rfl⟩ := Option.map_eq_some_iff.mp hstrings
  exact map_map ..

/-- **The SMBIOS table.** Where `krun_set_smbios_oem_strings` accepts the strings and `setup_smbios`
succeeds, a reader finds a valid entry point, the structures up to the end of the table and the
given OEM strings exactly if none of these is empty. -/
theorem smbios_read_iff {isUtf8 : List Byte → Bool} {ctxExists : Bool}
    {args : Option (List (Option CString))}
    (hset : krunSetSmbiosOemStrings isUtf8 ctxExists args = .ok oemStrings)
    (hsetup : setupSmbios m startAddr (oemStrings.map (List.map CString.bytes)) = .ok (m', size)) :
    SmbiosRead m' startAddr.toNat oemStrings ↔ ∀ s ∈ oemStrings.getD [], s.bytes ≠ [] := by
  constructor
  · exact nonempty_of_smbiosRead hsetup
  · apply smbiosRead_of_nonempty _ hsetup
    rintro rfl
    exact krunSetSmbiosOemStrings_ne_nil hset rfl

end Result

/-! ## Two tables -/

def page : FlatMemory := .zeroed [⟨0, 4096⟩] (by decide)

/-- The strings `s` and `t`, in this order. -/
def strings : List CString := [⟨ascii "s", by decide⟩, ⟨ascii "t", by decide⟩]

/-- The strings `s`, an empty one, and `t`. -/
def emptyBetween : List CString :=
  [⟨ascii "s", by decide⟩, ⟨[], List.not_mem_nil⟩, ⟨ascii "t", by decide⟩]

theorem exists_setupSmbios (cs : List CString)
    (h : (setupSmbios page 0 (some (cs.map CString.bytes))).isOk = true) :
    ∃ m size, setupSmbios page 0 ((some cs).map (List.map CString.bytes)) = .ok (m, size) := by
  rw [Option.map_some]
  cases hs : setupSmbios page 0 (some (cs.map CString.bytes)) with
  | error e =>
    rw [hs] at h
    cases h
  | ok r => exact ⟨r.1, r.2, rfl⟩

theorem smbios_read_two :
    ∃ m size, krunSetSmbiosOemStrings (fun _ => true) true (some (strings.map some)) =
        .ok (some strings) ∧
      setupSmbios page 0 ((some strings).map (List.map CString.bytes)) = .ok (m, size) ∧
      SmbiosRead m 0 (some strings) := by
  obtain ⟨m, size, h⟩ := exists_setupSmbios strings (by decide +kernel)
  have hset : krunSetSmbiosOemStrings (fun _ => true) true (some (strings.map some)) =
      .ok (some strings) := rfl
  exact ⟨m, size, hset, h, (smbios_read_iff hset h).mpr (by decide +kernel)⟩

/-- The reader takes the empty string for the end of the strings. -/
theorem smbios_empty_string :
    ∃ m size, krunSetSmbiosOemStrings (fun _ => true) true (some (emptyBetween.map some)) =
        .ok (some emptyBetween) ∧
      setupSmbios page 0 ((some emptyBetween).map (List.map CString.bytes)) = .ok (m, size) ∧
      ¬ SmbiosRead m 0 (some emptyBetween) := by
  obtain ⟨m, size, h⟩ := exists_setupSmbios emptyBetween (by decide +kernel)
  refine ⟨m, size, rfl, h, fun hread => ?_⟩
  exact nonempty_of_smbiosRead h hread ⟨[], not_mem_nil⟩
    (mem_cons_of_mem _ mem_cons_self) rfl

end Shelter.Smbios
