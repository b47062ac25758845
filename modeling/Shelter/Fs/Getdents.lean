import Shelter.Fs.Session

/-!
# The records of a directory

`do_readdir` walks over the buffer that `getdents64` has filled: records of different lengths, each
with a name that ends with a zero byte and is padded. The server's model takes the entries from the
host already parsed; here the walk is modelled on the bytes, and `doReaddirBytes_eq` says that this
makes no difference for listings of well-formed records.

The names are cut off at the zero byte before they are compared with `.` and `..`, whose constants
include it. So nothing is ever left out (`hands_all`).
-/

open Bytes

namespace Shelter.Fs

open List

/-- The fixed part of a record, which is packed. -/
structure LinuxDirent64 where
  ino : U64
  off : U64
  reclen : U16
  ty : Byte
  deriving DecidableEq, Repr

namespace LinuxDirent64

def size : ℕ := 19

def ofBytes (bs : List Byte) : LinuxDirent64 where
  ino := word 64 bs 0
  off := word 64 bs 8
  reclen := word 16 bs 16
  ty := word 8 bs 18

end LinuxDirent64

namespace Passthrough

open Prog

variable {S K : Type}

/-- The record that `rem` begins with, and what follows it; `none` where the code panics. -/
def nextDirent (rem : List Byte) : Option (DirEntry × List Byte) :=
  let back := rem.drop LinuxDirent64.size
  let dirent64 := LinuxDirent64.ofBytes (rem.take LinuxDirent64.size)
  let reclen := dirent64.reclen.toNat
  let namelen := reclen - LinuxDirent64.size
  let name := back.take namelen
  if rem.length < LinuxDirent64.size then none
  -- a difference that wraps around is longer than any buffer
  else if reclen < LinuxDirent64.size ∨ back.length < namelen then none
  else (name.findIdx? (· == 0)).map fun term =>
    (⟨dirent64.ino, dirent64.off, dirent64.ty.setWidth 32, name.take term⟩, rem.drop reclen)

variable {rem rest : List Byte} {d : DirEntry}

theorem length_of_nextDirent (h : nextDirent rem = some (d, rest)) : rest.length < rem.length := by
  unfold nextDirent at h
  dsimp only at h
  split_ifs at h with hsize hlen
  obtain ⟨term, _, ⟨⟩⟩ := Option.map_eq_some_iff.mp h
  rw [length_drop]
  unfold LinuxDirent64.size at hsize hlen ⊢
  omega

def readdirLoop (addEntry : DirEntry → Prog S IoErr ℕ) (rem : List Byte) : Prog S IoErr Unit :=
  if rem = [] then pure ()
  else
    match h : nextDirent rem with
    | none => panic
    | some (d, rest) => do
      let n ← (if [46, 0].isPrefixOf d.name ∨ [46, 46, 0].isPrefixOf d.name then pure 1
        else addEntry d)
      if n = 0 then pure () else readdirLoop addEntry rest
termination_by rem.length
decreasing_by exact length_of_nextDirent h

theorem readdirLoop_nil (addEntry : DirEntry → Prog S IoErr ℕ) :
    readdirLoop addEntry [] = pure () := by
  rw [readdirLoop, if_pos rfl]

theorem readdirLoop_of_next (addEntry : DirEntry → Prog S IoErr ℕ) (hrem : rem ≠ [])
    (h : nextDirent rem = some (d, rest)) :
    readdirLoop addEntry rem = (do
      let n ← (if [46, 0].isPrefixOf d.name ∨ [46, 46, 0].isPrefixOf d.name then pure 1
        else addEntry d)
      if n = 0 then pure () else readdirLoop addEntry rest) := by
  rw [readdirLoop, if_neg hrem]
  split
  next he => rw [h] at he; cases he
  next he =>
    cases h.symm.trans he
    rfl

section Readdir

variable (host : Host)

/-- The part of `do_readdir` that fills the buffer. -/
def getdents (inode handle : U64) (size : U32) (offset : U64) : Step (List Byte) := do
  let data ← getHandle inode handle
  sys host.unit (.lseek data.file offset 0)
  sys host.bytes (.getdents64 data.file size)

/-- `do_readdir`, on the bytes that the kernel returns. -/
def doReaddirBytes (inode handle : U64) (size : U32) (offset : U64)
    (addEntry : DirEntry → Prog (Served × K) IoErr ℕ) : Prog (Served × K) IoErr Unit :=
  if size = 0 then pure ()
  else do
    let buf ← onFs (getdents host inode handle size offset)
    readdirLoop addEntry buf

end Readdir

end Passthrough

/-! ## Well-formed records -/

/-- A record as the kernel writes it: the name ends with the first zero byte, and the length of the
whole fits in its field. -/
structure DirRecord where
  ino : U64
  off : U64
  type : Byte
  name : List Byte
  padding : List Byte
  name_nul : 0 ∉ name
  fits : LinuxDirent64.size + name.length + 1 + padding.length < 2 ^ 16

variable (records : List DirRecord)

namespace DirRecord

variable (r : DirRecord)

def reclen : ℕ := LinuxDirent64.size + r.name.length + 1 + r.padding.length

def toBytes : List Byte :=
  le r.ino ++ (le r.off ++ (le (BitVec.ofNat 16 r.reclen) ++ (le r.type ++
    (r.name ++ 0 :: r.padding))))

def entry : DirEntry := ⟨r.ino, r.off, r.type.setWidth 32, r.name⟩

/-- The record is the one of the directory itself, or of its parent. -/
def Dots : Prop := r.name = [46] ∨ r.name = [46, 46]
  deriving Decidable

def listing : List Byte := records.flatMap toBytes

/-- The entries of a listing but for the two that every directory has. -/
def others : List DirEntry :=
  (records.filter fun r => ¬ r.Dots).map entry

theorem length_toBytes : r.toBytes.length = r.reclen := by
  unfold toBytes reclen LinuxDirent64.size
  simp only [length_append, length_le, length_cons]
  omega

theorem ofBytes_toBytes (rest : List Byte) :
    LinuxDirent64.ofBytes ((r.toBytes ++ rest).take LinuxDirent64.size) =
      ⟨r.ino, r.off, BitVec.ofNat 16 r.reclen, r.type⟩ := by
  have hhead : (r.toBytes ++ rest).take LinuxDirent64.size =
      le r.ino ++ (le r.off ++ (le (BitVec.ofNat 16 r.reclen) ++ (le r.type ++ []))) := by
    have hsplit : r.toBytes ++ rest =
        (le r.ino ++ (le r.off ++ (le (BitVec.ofNat 16 r.reclen) ++ (le r.type ++ [])))) ++
          (r.name ++ 0 :: r.padding ++ rest) := by simp [toBytes]
    rw [hsplit, take_left' (by simp [LinuxDirent64.size])]
  rw [hhead, LinuxDirent64.mk.injEq]
  refine ⟨?_, ?_, ?_, ?_⟩
  · exact word_append (by decide) length_nil r.ino _
  · exact word_append (by decide) (length_le r.ino) r.off _
  · rw [← append_assoc]
    exact word_append (by decide) (by simp) (BitVec.ofNat 16 r.reclen) _
  · rw [← append_assoc, ← append_assoc]
    exact word_append (by decide) (by simp) r.type []

theorem findIdx_name : (r.name ++ 0 :: r.padding).findIdx? (· == 0) = some r.name.length := by
  rw [List.findIdx?_append]
  have hnone : r.name.findIdx? (· == 0) = none := by
    rw [List.findIdx?_eq_none_iff]
    intro b hb
    have hne : b ≠ 0 := fun h => r.name_nul (h ▸ hb)
    simpa using hne
  rw [hnone]
  simp [List.findIdx?_cons]

end DirRecord

namespace Passthrough

open Prog DirRecord

variable {S K : Type}

theorem nextDirent_toBytes (r : DirRecord) (rest : List Byte) :
    nextDirent (r.toBytes ++ rest) = some (r.entry, rest) := by
  have hlen := r.length_toBytes
  have hreclen : r.reclen = LinuxDirent64.size + (r.name ++ 0 :: r.padding).length := by
    unfold reclen
    simp only [length_append, length_cons]
    omega
  have htoNat : (BitVec.ofNat 16 r.reclen).toNat = r.reclen := by
    exact Nat.mod_eq_of_lt r.fits
  have hback : (r.toBytes ++ rest).drop LinuxDirent64.size =
      (r.name ++ 0 :: r.padding) ++ rest := by
    have hsplit : r.toBytes ++ rest =
        (le r.ino ++ le r.off ++ le (BitVec.ofNat 16 r.reclen) ++ le r.type) ++
          ((r.name ++ 0 :: r.padding) ++ rest) := by simp [toBytes]
    rw [hsplit, drop_left' (by simp [LinuxDirent64.size])]
  unfold nextDirent
  simp only [ofBytes_toBytes, htoNat, hback]
  have hname : r.reclen - LinuxDirent64.size = (r.name ++ 0 :: r.padding).length := by omega
  rw [hname, take_left, findIdx_name, if_neg, if_neg]
  · rw [drop_left' hlen, Option.map_some, take_left]
    rfl
  · rw [length_append]
    omega
  · rw [length_append, hlen]
    omega

theorem not_isPrefixOf_nul (cs : List Byte) {name : List Byte} (h : 0 ∉ name) :
    (cs ++ [0]).isPrefixOf name = false := by
  rw [Bool.eq_false_iff, ne_eq, isPrefixOf_iff_prefix]
  intro hp
  exact h (hp.subset (mem_append_right _ (mem_singleton_self 0)))

theorem not_skipped (r : DirRecord) : ¬ ([46, 0].isPrefixOf r.entry.name = true ∨
    [46, 46, 0].isPrefixOf r.entry.name = true) := by
  have h1 := not_isPrefixOf_nul [46] r.name_nul
  have h2 := not_isPrefixOf_nul [46, 46] r.name_nul
  rintro (h | h)
  · exact absurd (h1.symm.trans h) Bool.false_ne_true
  · exact absurd (h2.symm.trans h) Bool.false_ne_true

/-- The entries are handed over one after the other, until the callback returns 0 or fails. -/
def feed (addEntry : DirEntry → Prog S IoErr ℕ) : List DirEntry → Prog S IoErr Unit
  | [] => pure ()
  | d :: rest => do
    let n ← addEntry d
    if n = 0 then pure () else feed addEntry rest

theorem readdirLoop_listing (addEntry : DirEntry → Prog S IoErr ℕ) (records : List DirRecord) :
    readdirLoop addEntry (listing records) = feed addEntry (records.map entry) := by
  induction records with
  | nil => exact readdirLoop_nil addEntry
  | cons r records ih =>
    have hne : listing (r :: records) ≠ [] := by
      have := r.length_toBytes
      intro h
      rw [listing, flatMap_cons, append_eq_nil_iff] at h
      rw [h.1] at this
      unfold reclen LinuxDirent64.size at this
      simp at this
      omega
    rw [readdirLoop_of_next addEntry hne (nextDirent_toBytes r (listing records)),
      if_neg (not_skipped r), ih]
    rfl

theorem direntLoop_entries (addEntry : DirEntry → Prog (Served × K) IoErr ℕ)
    (records : List DirRecord) :
    direntLoop addEntry (records.map entry) = readdirLoop addEntry (listing records) := by
  rw [readdirLoop_listing]
  induction records with
  | nil => rfl
  | cons r records ih =>
    rw [map_cons, direntLoop, feed, if_neg (not_skipped r), ih]

variable {A : Type} {answer : ℕ → Except Errno A} {s : Served}

theorem sys_of_ok (call : SysCall) {a : A} (h : answer s.thread.log.length = .ok a) :
    sys answer call s = some (.ok a, { s with thread := s.thread.perform call none true }) := by
  unfold sys sysFor
  rw [h]
  rfl

theorem sys_of_error (call : SysCall) {e : Errno} (h : answer s.thread.log.length = .error e) :
    sys answer call s =
      some (.error (.os e), { s with thread := s.thread.perform call none false }) := by
  unfold sys sysFor
  rw [h]
  rfl

/-- The server's model of `do_readdir`, on a host that answers with the parsed entries, is the one
on the bytes. -/
theorem doReaddirBytes_eq {host : Host} {answer : ℕ → Except Errno (List DirRecord)}
    (hbytes : ∀ n, host.bytes n = (answer n).map listing)
    (hdirents : ∀ n, host.dirents n = (answer n).map (List.map entry)) (inode handle : U64)
    (size : U32) (offset : U64) (addEntry : DirEntry → Prog (Served × K) IoErr ℕ) :
    doReaddirBytes host inode handle size offset addEntry =
      doReaddir host inode handle size offset addEntry := by
  unfold doReaddirBytes doReaddir
  split_ifs with hsize
  · rfl
  funext ⟨s, k⟩
  unfold getdents
  rcases hget : getHandle inode handle s with _ | ⟨e | data, s₁⟩
  · rw [bind_none (onFs_none (bind_none hget) k), bind_none (onFs_none hget k)]
  · rw [bind_error (onFs_some (bind_error hget) k), bind_error (onFs_some hget k)]
  rw [bind_ok (onFs_some hget k)]
  rcases hseek : sys host.unit (.lseek data.file offset 0) s₁ with _ | ⟨e | u, s₂⟩
  · cases hseek
  · rw [bind_error (onFs_some ((bind_ok hget).trans (bind_error hseek)) k),
      bind_error (onFs_some hseek k)]
  rw [bind_ok (onFs_some hseek k)]
  -- the two answers differ in their form only
  have hbytes := hbytes s₂.thread.log.length
  have hdirents := hdirents s₂.thread.log.length
  rcases hn : answer s₂.thread.log.length with e | records <;> rw [hn] at hbytes hdirents
  · have hread := sys_of_error (.getdents64 data.file size) hbytes
    rw [bind_error (onFs_some ((bind_ok hget).trans ((bind_ok hseek).trans hread)) k),
      bind_error (onFs_some (sys_of_error _ hdirents) k)]
  · have hread := sys_of_ok (.getdents64 data.file size) hbytes
    rw [bind_ok (onFs_some ((bind_ok hget).trans ((bind_ok hseek).trans hread)) k),
      bind_ok (onFs_some (sys_of_ok _ hdirents) k), direntLoop_entries]

/-! ## What is handed over -/

/-- Whenever the kernel lists these records, `do_readdir` hands over these entries. -/
def Hands (records : List DirRecord) (entries : List DirEntry) : Prop :=
  ∀ (K : Type) (host : Host) (inode handle : U64) (size : U32) (offset : U64)
    (addEntry : DirEntry → Prog (Served × K) IoErr ℕ) (s s' : Served) (k : K), size ≠ 0 →
    getdents host inode handle size offset s = some (.ok (listing records), s') →
    doReaddirBytes host inode handle size offset addEntry (s, k) = feed addEntry entries (s', k)

theorem hands_all (records : List DirRecord) : Hands records (records.map entry) := by
  intro K host inode handle size offset addEntry s s' k hsize hget
  unfold doReaddirBytes
  rw [if_neg hsize, bind_ok (onFs_some hget k), readdirLoop_listing]

def writeDown (d : DirEntry) : Prog (Served × List DirEntry) IoErr ℕ := do
  modify fun p => (p.1, p.2 ++ [d])
  pure 1

theorem feed_writeDown (entries : List DirEntry) (s : Served) (told : List DirEntry) :
    feed writeDown entries (s, told) = some (.ok (), s, told ++ entries) := by
  induction entries generalizing told with
  | nil => simp [feed]
  | cons d entries ih =>
    have hstep : writeDown d (s, told) = some (.ok 1, s, told ++ [d]) := rfl
    rw [feed, bind_ok hstep, if_neg (by decide), ih]
    simp

/-- A file system in which handle 1 is a directory, and a kernel that lists these records. -/
def listingHost : Host :=
  { calmHost with bytes := fun _ => .ok (listing records) }

def openDirectory : Served where
  fs := { PassthroughFs.new smallConfig 3 with
    handles := fun h => if h = 1 then some ⟨rootId, 4⟩ else none }
  thread := ⟨0, 0, []⟩

theorem getdents_listingHost :
    ∃ s', getdents (listingHost records) rootId 1 4096 0 openDirectory =
      some (.ok (listing records), s') := ⟨_, rfl⟩

theorem hands_unique {records : List DirRecord} {entries entries' : List DirEntry}
    (h : Hands records entries) (h' : Hands records entries') : entries = entries' := by
  obtain ⟨s', hget⟩ := getdents_listingHost records
  have hfeed := h _ (listingHost records) rootId 1 4096 0 writeDown _ s' [] (by decide) hget
  have hfeed' := h' _ (listingHost records) rootId 1 4096 0 writeDown _ s' [] (by decide) hget
  rw [feed_writeDown] at hfeed hfeed'
  simpa using hfeed.symm.trans hfeed'

/-- **Directory listings.** Of every listing of well-formed records all entries are handed over,
each once, in order and whole, until the callback returns 0 or fails. So `.` and `..` are left out
exactly if they are not among the records. -/
theorem listing_handed_over (records : List DirRecord) :
    Hands records (records.map entry) ∧
      (Hands records (others records) ↔ ∀ r ∈ records, ¬ r.Dots) := by
  refine ⟨hands_all records, ?_⟩
  constructor
  · intro h r hr hdots
    have he : others records = records.map entry := hands_unique h (hands_all records)
    have hlen := congrArg List.length he
    unfold others at hlen
    rw [length_map, length_map, length_filter_eq_length_iff] at hlen
    exact of_decide_eq_true (hlen r hr) hdots
  · intro h
    have hall : records.filter (fun r => ¬ r.Dots) = records :=
      filter_eq_self.mpr fun r hr => decide_eq_true (h r hr)
    unfold others
    rw [hall]
    exact hands_all records

def hiddenRecord : DirRecord where
  ino := 7
  off := 1
  type := 8
  name := [46, 97]
  padding := [0, 0]
  name_nul := by decide
  fits := by decide

theorem listing_handed_over_hidden :
    (∀ r ∈ [hiddenRecord], ¬ r.Dots) ∧ Hands [hiddenRecord] (others [hiddenRecord]) :=
  ⟨by decide, (listing_handed_over [hiddenRecord]).2.mpr (by decide)⟩

/-- A kernel that answers in both forms. -/
theorem doReaddirBytes_eq_hidden :
    let host := { listingHost [hiddenRecord] with dirents := fun _ => .ok [hiddenRecord.entry] }
    doReaddirBytes host rootId 1 64 0 writeDown = doReaddir host rootId 1 64 0 writeDown :=
  @doReaddirBytes_eq _ _ (fun _ => .ok [hiddenRecord]) (fun _ => rfl) (fun _ => rfl) ..

def dotRecord : DirRecord where
  ino := 5
  off := 1
  type := 4
  name := [46]
  padding := [0, 0, 0]
  name_nul := by decide
  fits := by decide

/-- The entry `.` is handed over. -/
theorem dot_handed_over :
    ∃ s', doReaddirBytes (listingHost [dotRecord]) rootId 1 4096 0 writeDown (openDirectory, []) =
        some (.ok (), s', [dotRecord.entry]) ∧ others [dotRecord] = [] := by
  obtain ⟨s', hget⟩ := getdents_listingHost [dotRecord]
  refine ⟨s', ?_, by decide⟩
  rw [hands_all [dotRecord] _ _ rootId 1 4096 0 writeDown _ s' [] (by decide) hget, feed_writeDown]
  rfl

end Passthrough

end Shelter.Fs
