import Shelter.Lib.StringSet
import Shelter.Memory.GuestMemory

/-!
# The SMBIOS table

`setup_smbios` writes a table of structures for the firmware interface of the guest: BIOS
information, system information, the OEM strings if there are any, and an end marker. Each structure
is a packed record followed by its strings, and the entry point before the table says where it is
and how long. The OEM strings come from `krun_set_smbios_oem_strings`.

1. the records and their bytes;
2. the code that writes them, object by object;
3. what it writes: `setupSmbios_ok`, from the rule that two writers in a row write the one text
   after the other.
-/

open Bytes

namespace Shelter.Smbios

open List

inductive Error
  | smBiosOverflow
  | notEnoughMemory
  | writeSmbiosEp
  | writeData
  | oemStringsOverflow
  deriving DecidableEq, Repr

/-! ## Records -/

def ascii (s : String) : List Byte := s.toList.map fun c => BitVec.ofNat 8 c.toNat

def sm3Anchor : List Byte := ascii "_SM3_"

structure Entrypoint30 where
  anchor : List Byte
  checksum : Byte
  length : Byte
  majorVersion : Byte
  minorVersion : Byte
  docrev : Byte
  revision : Byte
  reserved : Byte
  tableMaxSize : U32
  tableAddr : U64

namespace Entrypoint30

def size : ℕ := 24

def bytes (ep : Entrypoint30) : List Byte :=
  ep.anchor ++ [ep.checksum, ep.length, ep.majorVersion, ep.minorVersion, ep.docrev, ep.revision,
    ep.reserved] ++ leBytes 4 ep.tableMaxSize.toNat ++ leBytes 8 ep.tableAddr.toNat

def computeChecksum (ep : Entrypoint30) : Byte :=
  let checksum := ep.bytes.foldl (fun checksum i => checksum + i) 0
  ~~~checksum + 1

def new (tableMaxSize : U32) (tableAddr : U64) : Entrypoint30 :=
  let ep : Entrypoint30 := {
    anchor := sm3Anchor
    checksum := 0
    length := BitVec.ofNat 8 size
    majorVersion := 3
    minorVersion := 0
    docrev := 0
    revision := 1
    reserved := 0
    tableMaxSize := tableMaxSize
    tableAddr := tableAddr }
  { ep with checksum := ep.computeChecksum }

end Entrypoint30

/-- BIOS Information (Type 0), as `BiosInfo::new` fills it in. -/
def biosInfo (vendorStrIdx versionStrIdx releaseDateStrIdx : Byte) : List Byte :=
  ([0, 24] : List Byte) ++ leBytes 2 0x000 ++ [vendorStrIdx, versionStrIdx] ++ leBytes 2 0 ++
    [releaseDateStrIdx, 0] ++ leBytes 8 (1 <<< 3) ++
    ([0, 1 <<< 2 ||| 1 <<< 3 ||| 1 <<< 4, 0, 0, 0xFF, 0xFF] : List Byte)

def systemInfo (manufacturerStrIdx productNameStrIdx : Byte) : List Byte :=
  ([1, 27] : List Byte) ++ leBytes 2 0x100 ++ [manufacturerStrIdx, productNameStrIdx, 0, 0] ++
    List.replicate 16 0 ++ [0x06, 0, 0]

def oemStringsInfo (count : Byte) : List Byte := ([11, 5] : List Byte) ++ leBytes 2 0xe00 ++ [count]

def endOfTable : List Byte := ([127, 4] : List Byte) ++ leBytes 2 0x7f00

/-! ## The code -/

section Code

variable {M : Type} [GuestMemory M]

def writeObj (val : List Byte) (m : M) (curptr : ℕ) : Except Error (M × ℕ) :=
  let (m, ok) := writeSlice m curptr val
  if ok then
    match checkedAdd curptr val.length with
    | some next => .ok (m, next)
    | none => .error .notEnoughMemory
  else .error .writeData

def writeString : List Byte → M → ℕ → Except Error (M × ℕ)
  | [], m, curptr => writeObj [0] m curptr
  | c :: val, m, curptr => do
    let (m, curptr) ← writeObj [c] m curptr
    writeString val m curptr

def writeType0Table (m : M) (current : ℕ) : Except Error (M × ℕ) := do
  let (m, current) ← writeObj (biosInfo 1 2 3) m current
  let (m, current) ← writeString (ascii "libkrun") m current
  let (m, current) ← writeString (ascii "0") m current
  let (m, current) ← writeString (ascii "01/05/2024") m current
  writeObj [0] m current

def writeType1Table (m : M) (current : ℕ) : Except Error (M × ℕ) := do
  let (m, current) ← writeObj (systemInfo 1 2) m current
  let (m, current) ← writeString (ascii "Libkrun") m current
  let (m, current) ← writeString (ascii "libkrun Virtual Machine") m current
  writeObj [0] m current

def writeStrings : List (List Byte) → M → ℕ → Except Error (M × ℕ)
  | [], m, current => .ok (m, current)
  | s :: oemStrings, m, current => do
    let (m, current) ← writeString s m current
    writeStrings oemStrings m current

def writeType11Table (oemStrings : Option (List (List Byte))) (m : M) (current : ℕ) :
    Except Error (M × ℕ) :=
  match oemStrings with
  | none => .ok (m, current)
  | some oemStrings =>
    if 256 ≤ oemStrings.length then .error .oemStringsOverflow
    else do
      let (m, current) ← writeObj (oemStringsInfo (BitVec.ofNat 8 oemStrings.length)) m current
      let (m, current) ← writeStrings oemStrings m current
      writeObj [0] m current

def writeEndOfTable (m : M) (current : ℕ) : Except Error (M × ℕ) := do
  let (m, current) ← writeObj endOfTable m current
  let (m, current) ← writeObj [0] m current
  writeObj [0] m current

def writeEntryPoint (m : M) (startAddr current : ℕ) : Except Error (M × ℕ) :=
  match checkedAdd startAddr Entrypoint30.size with
  | none => .error .notEnoughMemory
  | some tableAddr =>
    if 2 ^ 32 ≤ current - tableAddr then .error .smBiosOverflow
    else
      let ep := Entrypoint30.new (BitVec.ofNat 32 (current - tableAddr)) (BitVec.ofNat 64 tableAddr)
      let (m, ok) := writeSlice m startAddr ep.bytes
      if ok then .ok (m, Entrypoint30.size + (current - tableAddr)) else .error .writeSmbiosEp

def writeTable (oemStrings : Option (List (List Byte))) (m : M) (current : ℕ) :
    Except Error (M × ℕ) := do
  let (m, current) ← writeType0Table m current
  let (m, current) ← writeType1Table m current
  let (m, current) ← writeType11Table oemStrings m current
  writeEndOfTable m current

def setupSmbios (m : M) (startAddr : U64) (oemStrings : Option (List (List Byte))) :
    Except Error (M × ℕ) :=
  match checkedAdd startAddr.toNat Entrypoint30.size with
  | none => .error .notEnoughMemory
  | some tableStartingAddr => do
    let (m, current) ← writeTable oemStrings m tableStartingAddr
    writeEntryPoint m startAddr.toNat current

end Code

structure CString where
  bytes : List Byte
  noNul : 0 ∉ bytes

def maxArgs : ℕ := 4096

inductive Errno
  | einval
  | enoent
  deriving DecidableEq, Repr

/-- `krun_set_smbios_oem_strings`: the strings before the first null pointer, if all of them are
UTF-8 and the context exists. The value is that of `smbios_oem_strings`. -/
def krunSetSmbiosOemStrings (isUtf8 : List Byte → Bool) (ctxExists : Bool)
    (oemStrings : Option (List (Option CString))) : Except Errno (Option (List CString)) :=
  match oemStrings with
  | none => .error .einval
  | some ptrs =>
    let strings := ((ptrs.take maxArgs).takeWhile Option.isSome).reduceOption
    if strings.all fun s => isUtf8 s.bytes then
      if ctxExists then .ok (if strings.isEmpty then none else some strings) else .error .enoent
    else .error .einval

/-! ## What is written -/

section Emits

variable {M : Type} [GuestMemory M]

/-- What the function writes where it succeeds: these bytes, from the address on, and it returns the
address after them. -/
def Emits (f : M → ℕ → Except Error (M × ℕ)) (bs : List Byte) : Prop :=
  ∀ m a m' a', f m a = .ok (m', a') → a' = a + bs.length ∧ Mapped m a bs.length ∧ Wrote a bs m m'

theorem bind_eq_ok {A B : Type} {x : Except Error A} {f : A → Except Error B} {b : B}
    (h : x >>= f = .ok b) : ∃ a, x = .ok a ∧ f a = .ok b := by
  cases x with
  | error e => cases h
  | ok a => exact ⟨a, rfl, h⟩

theorem Emits.bind {f g : M → ℕ → Except Error (M × ℕ)} {bs bs' : List Byte} (hf : Emits f bs)
    (hg : Emits g bs') : Emits (fun m a => do let (m, a) ← f m a; g m a) (bs ++ bs') := by
  intro m a m' a' h
  obtain ⟨⟨m₁, a₁⟩, hfirst, h⟩ := bind_eq_ok h
  obtain ⟨rfl, hm, hw⟩ := hf m a m₁ a₁ hfirst
  obtain ⟨rfl, hm', hw'⟩ := hg m₁ _ m' a' h
  rw [hw.layout.mapped_iff] at hm'
  rw [length_append]
  exact ⟨Nat.add_assoc .., hm.append hm', hw.append hw'⟩

theorem emits_nil : Emits (fun (m : M) a => .ok (m, a)) [] := by
  intro m a m' a' h
  cases h
  exact ⟨rfl, fun i hi => absurd hi (Nat.not_lt_zero i), SameLayout.refl m, SameOutside.refl _ m,
    rfl⟩

variable [LawfulGuestMemory M]

theorem emits_writeObj {val : List Byte} (hval : val ≠ []) : Emits (M := M) (writeObj val) val := by
  intro m a m' a' h
  unfold writeObj at h
  dsimp only at h
  split_ifs at h with hok
  have hm : Mapped m a val.length := (LawfulGuestMemory.writeSlice_ok hval).mp hok
  split at h
  next next hnext =>
    cases h
    unfold checkedAdd at hnext
    split_ifs at hnext
    exact ⟨(Option.some.inj hnext).symm, hm, writeSlice_wrote hm⟩
  next => cases h

theorem emits_writeString (val : List Byte) : Emits (M := M) (writeString val) (val ++ [0]) := by
  induction val with
  | nil => exact emits_writeObj (cons_ne_nil _ _)
  | cons c val ih => exact (emits_writeObj (cons_ne_nil c [])).bind ih

theorem emits_writeStrings (strings : List (List Byte)) :
    Emits (M := M) (writeStrings strings) (StringSet.encode 0 strings) := by
  induction strings with
  | nil => exact emits_nil
  | cons s strings ih =>
    have h := (emits_writeString s).bind ih
    rw [append_assoc] at h
    rw [StringSet.encode_cons]
    exact h

end Emits

def structureBytes (record : List Byte) (strings : List (List Byte)) : List Byte :=
  record ++ (StringSet.encode 0 strings ++ [0])

def biosStrings : List (List Byte) := [ascii "libkrun", ascii "0", ascii "01/05/2024"]

def systemStrings : List (List Byte) := [ascii "Libkrun", ascii "libkrun Virtual Machine"]

def oemBytes : Option (List (List Byte)) → List Byte
  | none => []
  | some strings => structureBytes (oemStringsInfo (BitVec.ofNat 8 strings.length)) strings

def tableBytes (oemStrings : Option (List (List Byte))) : List Byte :=
  structureBytes (biosInfo 1 2 3) biosStrings ++
    (structureBytes (systemInfo 1 2) systemStrings ++
      (oemBytes oemStrings ++ (endOfTable ++ [0, 0])))

section Setup

variable {M : Type} [GuestMemory M] [LawfulGuestMemory M]

theorem emits_type0 :
    Emits (M := M) writeType0Table (structureBytes (biosInfo 1 2 3) biosStrings) := by
  have hrecord : biosInfo 1 2 3 ≠ [] := by simp [biosInfo]
  have h := (emits_writeObj (M := M) hrecord).bind ((emits_writeString (ascii "libkrun")).bind
    ((emits_writeString (ascii "0")).bind ((emits_writeString (ascii "01/05/2024")).bind
      (emits_writeObj (cons_ne_nil 0 [])))))
  refine (congrArg (Emits _) ?_).mp h
  simp [structureBytes, biosStrings]

theorem emits_type1 :
    Emits (M := M) writeType1Table (structureBytes (systemInfo 1 2) systemStrings) := by
  have hrecord : systemInfo 1 2 ≠ [] := by simp [systemInfo]
  have h := (emits_writeObj (M := M) hrecord).bind ((emits_writeString (ascii "Libkrun")).bind
    ((emits_writeString (ascii "libkrun Virtual Machine")).bind
      (emits_writeObj (cons_ne_nil 0 []))))
  refine (congrArg (Emits _) ?_).mp h
  simp [structureBytes, systemStrings]

theorem emits_type11 (oemStrings : Option (List (List Byte))) :
    Emits (M := M) (writeType11Table oemStrings) (oemBytes oemStrings) := by
  cases oemStrings with
  | none => exact emits_nil
  | some strings =>
    intro m a m' a' h
    unfold writeType11Table at h
    dsimp only at h
    split_ifs at h
    have hrecord : oemStringsInfo (BitVec.ofNat 8 strings.length) ≠ [] := by simp [oemStringsInfo]
    exact ((emits_writeObj hrecord).bind ((emits_writeStrings strings).bind
      (emits_writeObj (cons_ne_nil 0 [])))) m a m' a' h

theorem emits_endOfTable : Emits (M := M) writeEndOfTable (endOfTable ++ [0, 0]) := by
  have hrecord : endOfTable ≠ [] := by simp [endOfTable]
  exact (emits_writeObj (M := M) hrecord).bind
    ((emits_writeObj (cons_ne_nil 0 [])).bind (emits_writeObj (cons_ne_nil 0 [])))

theorem emits_writeTable (oemStrings : Option (List (List Byte))) :
    Emits (M := M) (writeTable oemStrings) (tableBytes oemStrings) :=
  emits_type0.bind (emits_type1.bind ((emits_type11 oemStrings).bind emits_endOfTable))

omit [LawfulGuestMemory M] in
theorem writeTable_length {strings : List (List Byte)} {m : M} {a : ℕ} {r : M × ℕ}
    (h : writeTable (some strings) m a = .ok r) : strings.length < 256 := by
  by_contra hlong
  have hfails : ∀ (m : M) a, writeType11Table (some strings) m a = .error .oemStringsOverflow :=
    fun m a => if_pos (Nat.le_of_not_lt hlong)
  obtain ⟨r₀, -, h⟩ := bind_eq_ok h
  obtain ⟨r₁, -, h⟩ := bind_eq_ok h
  obtain ⟨r₂, h, -⟩ := bind_eq_ok h
  cases (hfails _ _).symm.trans h

theorem length_entrypoint (size : U32) (addr : U64) :
    (Entrypoint30.new size addr).bytes.length = Entrypoint30.size := by
  rfl

structure Written (m : M) (startAddr : ℕ) (table : List Byte) : Prop where
  mapped : Mapped m startAddr (Entrypoint30.size + table.length)
  contents : bytesAt m (startAddr + Entrypoint30.size) table.length = table
  entryPoint : bytesAt m startAddr Entrypoint30.size =
    (Entrypoint30.new (BitVec.ofNat 32 table.length)
      (BitVec.ofNat 64 (startAddr + Entrypoint30.size))).bytes
  small : table.length < 2 ^ 32
  below : startAddr + Entrypoint30.size < 2 ^ 64

theorem setupSmbios_ok {m m' : M} {startAddr : U64} {oemStrings : Option (List (List Byte))}
    {size : ℕ} (h : setupSmbios m startAddr oemStrings = .ok (m', size)) :
    Written m' startAddr.toNat (tableBytes oemStrings) ∧
      ∀ strings ∈ oemStrings, strings.length < 256 := by
  unfold setupSmbios at h
  split at h
  next => cases h
  next tableAddr hadd =>
    have hbelow : startAddr.toNat + Entrypoint30.size < 2 ^ 64 ∧
        tableAddr = startAddr.toNat + Entrypoint30.size := by
      unfold checkedAdd at hadd
      split_ifs at hadd with hlt
      exact ⟨hlt, (Option.some.inj hadd).symm⟩
    obtain ⟨hbelow, rfl⟩ := hbelow
    obtain ⟨⟨m₁, current⟩, htable, h⟩ := bind_eq_ok h
    obtain ⟨rfl, hmapped, hwrote⟩ := emits_writeTable oemStrings m _ m₁ current htable
    dsimp only [writeEntryPoint] at h
    rw [hadd] at h
    dsimp only at h
    rw [Nat.add_sub_cancel_left] at h
    split_ifs at h with hsmall hok
    cases h
    have hlen := length_entrypoint (BitVec.ofNat 32 (tableBytes oemStrings).length)
      (BitVec.ofNat 64 (startAddr.toNat + Entrypoint30.size))
    have hep := (LawfulGuestMemory.writeSlice_ok (ne_nil_of_length_eq_add_one hlen)).mp hok
    have hw := writeSlice_wrote hep
    refine ⟨⟨?_, ?_, ?_, Nat.lt_of_not_le hsmall, hbelow⟩, ?_⟩
    · -- the entry point and the table are next to each other
      rw [hw.layout.mapped_iff]
      rw [← hwrote.layout.mapped_iff] at hmapped
      exact Mapped.append hep hmapped
    · rw [bytesAt_congr (hw.sameOn (apart_of_le (.inl (by rw [hlen])))), hwrote.bytes]
    · have hbytes := hw.bytes
      rwa [hlen] at hbytes
    · rintro strings ⟨⟩
      exact writeTable_length htable

end Setup

end Shelter.Smbios
