import Shelter.Fs.Server
import Shelter.Lib.Decode
import Shelter.Lib.Run
import Shelter.Virtio.Segments

/-!
# The entries of a directory in a reply

`READDIR` and `READDIRPLUS` are answered with directory entries, one behind the other, each padded
to a multiple of 8 bytes. `add_dirent` writes an entry if it still fits in the size that was asked
for. The decoders below are what the driver does with the reply, and `dirents_decode` says that it
finds in it exactly the entries that `add_dirent` has accepted.

1. `reads_direntOut`: the bytes of an entry are decoded to the entry.
2. `addDirent_spec`: a call writes these bytes, or nothing.
3. `filling_step`: what was written so far are the bytes of the entries accepted so far.
-/

open Bytes

namespace Shelter.Fs

open Virtio List Run

/-! ## The format -/

structure Attr where
  ino : U64
  size : U64
  blocks : U64
  atime : U64
  mtime : U64
  ctime : U64
  atimensec : U32
  mtimensec : U32
  ctimensec : U32
  mode : U32
  nlink : U32
  uid : U32
  gid : U32
  rdev : U32
  blksize : U32
  flags : U32
  deriving DecidableEq, Repr

def Attr.withFlags (st : Stat) (flags : U32) : Attr where
  ino := st.ino
  size := st.size
  blocks := st.blocks
  atime := st.atime
  mtime := st.mtime
  ctime := st.ctime
  atimensec := st.atimeNsec.setWidth 32
  mtimensec := st.mtimeNsec.setWidth 32
  ctimensec := st.ctimeNsec.setWidth 32
  mode := st.mode
  nlink := st.nlink.setWidth 32
  uid := st.uid
  gid := st.gid
  rdev := st.rdev.setWidth 32
  blksize := st.blksize.setWidth 32
  flags := flags

structure EntryOut where
  nodeid : U64
  generation : U64
  entryValid : U64
  attrValid : U64
  entryValidNsec : U32
  attrValidNsec : U32
  attr : Attr
  deriving DecidableEq, Repr

/-- `From<Entry> for EntryOut`. -/
def EntryOut.ofEntry (e : Entry) : EntryOut where
  nodeid := e.inode
  generation := e.generation
  entryValid := e.entryTimeout.secs
  attrValid := e.attrTimeout.secs
  entryValidNsec := e.entryTimeout.subsecNanos
  attrValidNsec := e.attrTimeout.subsecNanos
  attr := Attr.withFlags e.attr e.attrFlags

namespace Dirents

open Decoder

def attr : Decoder Attr := do
  let ino ← number 64
  let size ← number 64
  let blocks ← number 64
  let atime ← number 64
  let mtime ← number 64
  let ctime ← number 64
  let atimensec ← number 32
  let mtimensec ← number 32
  let ctimensec ← number 32
  let mode ← number 32
  let nlink ← number 32
  let uid ← number 32
  let gid ← number 32
  let rdev ← number 32
  let blksize ← number 32
  let flags ← number 32
  pure ⟨ino, size, blocks, atime, mtime, ctime, atimensec, mtimensec, ctimensec, mode, nlink, uid,
    gid, rdev, blksize, flags⟩

def entryOut : Decoder EntryOut := do
  let nodeid ← number 64
  let generation ← number 64
  let entryValid ← number 64
  let attrValid ← number 64
  let entryValidNsec ← number 32
  let attrValidNsec ← number 32
  let a ← attr
  pure ⟨nodeid, generation, entryValid, attrValid, entryValidNsec, attrValidNsec, a⟩

/-- A `Dirent` with its name, and the padding behind it. -/
def dirent : Decoder DirEntry := do
  let ino ← number 64
  let off ← number 64
  let namelen ← number 32
  let type ← number 32
  let name ← bytes namelen.toNat
  let _ ← bytes ((8 - (24 + namelen.toNat) % 8) % 8)
  pure ⟨ino, off, type, name⟩

/-- An entry of `READDIR`, or with its attributes of `READDIRPLUS`. -/
def direntOut (plus : Bool) : Decoder (Option EntryOut × DirEntry) := do
  let e ← (if plus then some <$> entryOut else pure none)
  let d ← dirent
  pure (e, d)

theorem reads_le {w : ℕ} (hw : 2 ^ w ≤ 256 ^ (w / 8)) (v : BitVec w) : Reads (number w) (le v) v :=
  reads_number hw v

theorem reads_attr (st : Stat) (flags : U32) :
    Reads attr (st.attrBytes flags) (Attr.withFlags st flags) := by
  unfold attr Stat.attrBytes
  simp only [append_assoc]
  iterate 15 refine Reads.bind (reads_le (by decide) _) ?_
  exact Reads.bind_pure (reads_le (by decide) _)

theorem reads_entryOut (e : Entry) :
    Reads entryOut (e.toBytes e.attrFlags) (EntryOut.ofEntry e) := by
  unfold entryOut Entry.toBytes
  simp only [append_assoc]
  iterate 6 refine Reads.bind (reads_le (by decide) _) ?_
  exact Reads.bind_pure (reads_attr _ _)

def paddingLen (name : List Byte) : ℕ := Server.direntLen name false - (24 + name.length)

theorem paddingLen_eq (name : List Byte) : paddingLen name = (8 - (24 + name.length) % 8) % 8 := by
  unfold paddingLen Server.direntLen
  simp only [Bool.false_eq_true, if_false]
  omega

/-- What a call of `add_dirent` is about. -/
structure Call where
  d : DirEntry
  entry : Option Entry
  deriving DecidableEq, Repr

namespace Call

variable (call : Call)

def entryBytes : List Byte :=
  (call.entry.map fun e => e.toBytes e.attrFlags).getD []

def toBytes : List Byte :=
  call.entryBytes ++ (call.d.toBytes ++ (call.d.name ++ List.replicate (paddingLen call.d.name) 0))

def told : Option EntryOut × DirEntry := (call.entry.map EntryOut.ofEntry, call.d)

theorem length_toBytes : call.toBytes.length = Server.direntLen call.d.name call.entry.isSome := by
  unfold toBytes entryBytes paddingLen Server.direntLen
  cases call.entry with
  | none | some => simp; omega

theorem toBytes_ne_nil : call.toBytes ≠ [] := by
  intro h
  have hlen := congrArg List.length h
  simp [toBytes] at hlen

end Call

theorem reads_dirent {d : DirEntry} (hname : d.name.length < 2 ^ 32) :
    Reads dirent (d.toBytes ++ (d.name ++ List.replicate (paddingLen d.name) 0)) d := by
  have hlen : (BitVec.ofNat 32 d.name.length).toNat = d.name.length := by
    exact Nat.mod_eq_of_lt hname
  have hpadding := reads_bytes (List.replicate (paddingLen d.name) 0)
  rw [length_replicate, paddingLen_eq] at hpadding
  unfold dirent DirEntry.toBytes
  simp only [append_assoc]
  iterate 4 refine Reads.bind (reads_le (by decide) _) ?_
  rw [hlen, paddingLen_eq]
  refine Reads.bind (reads_bytes d.name) ?_
  exact hpadding.bind_pure

theorem reads_direntOut {call : Call} (hname : call.d.name.length < 2 ^ 32) :
    Reads (direntOut call.entry.isSome) call.toBytes call.told := by
  obtain ⟨d, entry⟩ := call
  have hd := reads_dirent hname
  cases entry with
  | none => exact Reads.bind (reads_pure none) hd.bind_pure
  | some e => exact Reads.bind (reads_entryOut e).bind_pure hd.bind_pure

end Dirents

/-! ## Writing -/

namespace Server

open Prog Dirents

variable {M : Type} [GuestMemory M]

structure Cursor.Put (bs : List Byte) (c c' : Cursor M) : Prop where
  filled : Filled (c.w.addrs.take bs.length) bs c.mem c'.mem
  after : c.w.After bs.length c'.w

namespace Cursor

variable {c c' c'' : Cursor M} {bs bs' : List Byte}

theorem put_nil (h : c.w.Usable c.mem) : Put [] c c where
  filled := .refl c.mem
  after := Writer.after_zero h.counted

theorem Put.append (h : Put bs c c') (h' : Put bs' c' c'') : Put (bs ++ bs') c c'' where
  filled := by
    have happend := h.filled.append h'.filled
    rwa [h.after.addrs, ← take_add, ← length_append] at happend
  after := by
    rw [length_append]
    exact h.after.trans h'.after

theorem Put.usable (h : Put bs c c') (hc : c.w.Usable c.mem) : c'.w.Usable c'.mem :=
  h.after.usable hc h.filled.layout

variable [LawfulGuestMemory M]

theorem put_run (bs : List Byte) (hc : c.w.Usable c.mem) (hroom : bs.length ≤ c.w.addrs.length) :
    ∃ c', Cursor.put bs c = some (.ok (), c') ∧ Put bs c c' := by
  obtain ⟨e, w', hwrite, hfilled, hafter⟩ := Writer.writeAll_filled hc hroom
  refine ⟨{ c with w := w', mem := e.mem }, ?_, hfilled, hafter⟩
  unfold Cursor.put
  rw [hwrite]

end Cursor

variable [LawfulGuestMemory M]

/-- A call of `add_dirent` with room for what may be written: it fails for a name that is too long,
returns 0 if the entry does not fit, and writes the entry otherwise. -/
theorem addDirent_spec {c : Cursor M} (hc : c.w.Usable c.mem) (max : U32)
    (hroom : max.toNat - c.w.bytesWritten ≤ c.w.addrs.length) (call : Call) :
    (2 ^ 32 ≤ call.d.name.length ∧
      addDirent max call.d call.entry c = some (.error (.os .eoverflow), c)) ∨
    (max.toNat - c.w.bytesWritten < call.toBytes.length ∧
      addDirent max call.d call.entry c = some (.ok 0, c)) ∨
    ∃ c', call.d.name.length < 2 ^ 32 ∧
      call.toBytes.length ≤ max.toNat - c.w.bytesWritten ∧
      addDirent max call.d call.entry c = some (.ok call.toBytes.length, c') ∧
      c.Put call.toBytes c' := by
  by_cases hname : 2 ^ 32 ≤ call.d.name.length
  · left
    refine ⟨hname, ?_⟩
    unfold addDirent
    rw [if_pos hname]
    rfl
  right
  by_cases hfit : max.toNat - c.w.bytesWritten < call.toBytes.length
  · left
    refine ⟨hfit, ?_⟩
    rw [call.length_toBytes] at hfit
    unfold addDirent
    rw [if_neg hname, bind_ok (get_run c), if_pos hfit]
    rfl
  right
  have hlen : call.toBytes.length = call.entryBytes.length + (call.d.toBytes.length +
      (call.d.name.length + (List.replicate (paddingLen call.d.name) (0 : Byte)).length)) := by
    simp only [Call.toBytes, length_append]
  obtain ⟨c₁, h₁, hp₁⟩ := Cursor.put_run call.entryBytes hc (by omega)
  have hl₁ := congrArg List.length hp₁.after.addrs
  rw [length_drop] at hl₁
  obtain ⟨c₂, h₂, hp₂⟩ := Cursor.put_run call.d.toBytes (hp₁.usable hc) (by omega)
  have hl₂ := congrArg List.length hp₂.after.addrs
  rw [length_drop] at hl₂
  obtain ⟨c₃, h₃, hp₃⟩ := Cursor.put_run call.d.name (hp₂.usable (hp₁.usable hc)) (by omega)
  have hl₃ := congrArg List.length hp₃.after.addrs
  rw [length_drop] at hl₃
  obtain ⟨c₄, h₄, hp₄⟩ := Cursor.put_run (List.replicate (paddingLen call.d.name) 0)
    (hp₃.usable (hp₂.usable (hp₁.usable hc))) (by omega)
  have hput : c.Put call.toBytes c₄ := hp₁.append (hp₂.append (hp₃.append hp₄))
  refine ⟨{ c₄ with listed := c₄.listed ++ (call.entry.map Entry.inode).toList }, by omega,
    by omega, ?_, hput.filled, hput.after⟩
  rw [call.length_toBytes] at hfit ⊢
  unfold addDirent
  rw [if_neg hname, bind_ok (get_run c), if_neg hfit]
  exact (bind_ok h₁).trans ((bind_ok h₂).trans ((bind_ok h₃).trans (bind_ok h₄)))

/-! ## Successive calls -/

/-- A cursor, with the calls that were accepted so far. -/
structure Filling (M : Type) where
  cursor : Cursor M
  accepted : List Call

def accepts : Except IoErr ℕ → Bool
  | .ok n => n ≠ 0
  | .error _ => false

def Filling.step (max : U32) (s : Filling M) (call : Call) : Option (Filling M) :=
  (addDirent max call.d call.entry s.cursor).map fun out =>
    ⟨out.2, if accepts out.1 then s.accepted ++ [call] else s.accepted⟩

/-- A call returns the number of bytes it has added, and changes nothing if this is 0 or if it
fails. -/
structure Adds (call : Call) (r : Except IoErr ℕ) (c c' : Cursor M) : Prop where
  written : ∀ n, r = .ok n → c'.w.bytesWritten = c.w.bytesWritten + n
  length : ∀ n, r = .ok n → n ≠ 0 → n = direntLen call.d.name call.entry.isSome
  nothing : accepts r = false → c' = c

/-- What was written since `c` are the bytes of the accepted entries, which have names that fit. -/
structure Fills (max : U32) (c : Cursor M) (s : Filling M) : Prop where
  put : c.Put (s.accepted.flatMap Call.toBytes) s.cursor
  names : ∀ call ∈ s.accepted, call.d.name.length < 2 ^ 32
  limit : s.cursor.w.bytesWritten ≤ max.toNat

theorem filling_step {max : U32} {c : Cursor M} (hc : c.w.Usable c.mem)
    (hstart : c.w.bytesWritten = 0) (hroom : max.toNat ≤ c.w.addrs.length) {s : Filling M}
    (h : Fills max c s) (call : Call) :
    ∃ r c', addDirent max call.d call.entry s.cursor = some (r, c') ∧ Adds call r s.cursor c' ∧
      Fills max c ⟨c', if accepts r then s.accepted ++ [call] else s.accepted⟩ := by
  have hlimit := h.limit
  have hroom' : max.toNat - s.cursor.w.bytesWritten ≤ s.cursor.w.addrs.length := by
    rw [h.put.after.addrs, h.put.after.written, hstart, length_drop]
    omega
  rcases addDirent_spec (h.put.usable hc) max hroom' call with ⟨_, he⟩ | ⟨_, he⟩ |
      ⟨c', hname, hle, he, hput⟩
  · refine ⟨_, _, he, ⟨?_, ?_, fun _ => rfl⟩, h⟩
    · rintro n ⟨⟩
    · rintro n ⟨⟩
  · refine ⟨_, _, he, ⟨?_, ?_, fun _ => rfl⟩, h⟩
    · rintro n ⟨⟩
      rfl
    · rintro n ⟨⟩ hn
      exact absurd rfl hn
  · have hacc : accepts (.ok call.toBytes.length) = true := by
      simp [accepts, call.toBytes_ne_nil]
    refine ⟨_, _, he, ⟨?_, ?_, ?_⟩, ?_⟩
    · rintro n ⟨⟩
      exact hput.after.written
    · rintro n ⟨⟩ _
      exact call.length_toBytes
    · rw [hacc]
      nofun
    · rw [if_pos hacc]
      refine ⟨?_, forall_mem_snoc h.names hname, ?_⟩
      · rw [flatMap_append, flatMap_singleton]
        exact h.put.append hput
      · show c'.w.bytesWritten ≤ _
        rw [hput.after.written]
        omega

/-- **Directory entries.** Take a cursor with nothing written and with as many bytes as the limit.
However often `add_dirent` is called, no more than the limit is written, and the bytes that were
written are decoded to the entries for which a length other than 0 was returned. Each call returns
the number of bytes it has added, and writes nothing if it returns 0. -/
theorem dirents_decode (max : U32) (calls : List Call) {c : Cursor M} (hc : c.w.Usable c.mem)
    (hstart : c.w.bytesWritten = 0) (hroom : max.toNat ≤ c.w.addrs.length) :
    (∃ s bytes, Run.run (Filling.step max) ⟨c, []⟩ calls = some s ∧
      bytes.length = s.cursor.w.bytesWritten ∧ s.cursor.w.bytesWritten ≤ max.toNat ∧
      Filled (c.w.addrs.take bytes.length) bytes c.mem s.cursor.mem ∧
      (c.w.addrs.Nodup → contents s.cursor.mem (c.w.addrs.take bytes.length) = bytes) ∧
      ∀ plus : ℕ → Bool, (∀ k call, s.accepted[k]? = some call → plus k = call.entry.isSome) →
        Decoder.decodeAll (fun k => direntOut (plus k)) bytes = some (s.accepted.map Call.told)) ∧
    Run.Along (Filling.step max) (fun s call => ∃ r c',
        addDirent max call.d call.entry s.cursor = some (r, c') ∧ Adds call r s.cursor c')
      ⟨c, []⟩ calls := by
  have hinit : Fills max c ⟨c, []⟩ := by
    refine ⟨Cursor.put_nil hc, fun call hcall => absurd hcall not_mem_nil, ?_⟩
    show c.w.bytesWritten ≤ _
    omega
  have hstep : ∀ s call, Fills max c s → ∃ s', s.step max call = some s' ∧ Fills max c s' := by
    intro s call hs
    obtain ⟨r, c', he, _, hfills⟩ := filling_step hc hstart hroom hs call
    exact ⟨_, by unfold Filling.step; rw [he]; rfl, hfills⟩
  constructor
  · obtain ⟨s, hrun, hs⟩ := Run.run_total hstep hinit calls
    have hwritten := hs.put.after.written
    refine ⟨s, _, hrun, by omega, hs.limit, hs.put.filled, fun hnodup => ?_, fun plus hplus => ?_⟩
    · exact (hs.put.filled.stored (hnodup.sublist (take_sublist _ _))).bytes
    · refine Decoder.decodeAll_flatMap (fun call _ => call.toBytes_ne_nil) fun k call hcall => ?_
      rw [hplus k call hcall]
      exact reads_direntOut (hs.names call (mem_of_getElem? hcall))
  · refine (Run.along_congr (P := Fills max c) (fun s call hs => ?_) ?_ hinit calls).mp
      (Run.along_true _ calls)
    · obtain ⟨r, c', he, hadds, _⟩ := filling_step hc hstart hroom hs call
      exact iff_of_true trivial ⟨r, c', he, hadds⟩
    · intro s call s' hs _ h
      obtain ⟨s'', h', hs''⟩ := hstep s call hs
      cases h.symm.trans h'
      exact hs''

def smallCursor : Cursor FlatMemory where
  w := ⟨⟨[⟨0x10, 16⟩, ⟨0x40, 24⟩], 0⟩⟩
  mem := FlatMemory.zeroed [⟨0, 0x100⟩] (by decide)
  listed := []

theorem smallCursor_usable : smallCursor.w.Usable smallCursor.mem :=
  ⟨by decide, by decide⟩

/-- Of two entries of 32 bytes the first one fits. -/
theorem dirents_decode_first :
    smallCursor.w.Usable smallCursor.mem ∧ smallCursor.w.bytesWritten = 0 ∧
    (40 : U32).toNat ≤ smallCursor.w.addrs.length ∧
    ∃ s bytes, Run.run (Filling.step 40) ⟨smallCursor, []⟩
        [⟨⟨7, 1, 8, [97]⟩, none⟩, ⟨⟨8, 2, 8, [98]⟩, none⟩] = some s ∧
      Decoder.decodeAll (fun _ => direntOut false) bytes = some (s.accepted.map Call.told) ∧
      s.accepted.map Call.told = [(none, ⟨7, 1, 8, [97]⟩)] := by
  have hroom : (40 : U32).toNat ≤ smallCursor.w.addrs.length := by decide
  obtain ⟨⟨s, bytes, hrun, -, -, -, -, hdecode⟩, -⟩ := dirents_decode 40
    [⟨⟨7, 1, 8, [97]⟩, none⟩, ⟨⟨8, 2, 8, [98]⟩, none⟩] smallCursor_usable rfl hroom
  have haccepted : s.accepted = [⟨⟨7, 1, 8, [97]⟩, none⟩] := by
    have h : (Run.run (Filling.step 40) ⟨smallCursor, []⟩
        [⟨⟨7, 1, 8, [97]⟩, none⟩, ⟨⟨8, 2, 8, [98]⟩, none⟩]).map Filling.accepted =
          some [⟨⟨7, 1, 8, [97]⟩, none⟩] := by decide +kernel
    rw [hrun] at h
    exact Option.some.inj h
  refine ⟨smallCursor_usable, rfl, hroom, s, bytes, hrun, hdecode _ fun k call hcall => ?_, ?_⟩
  · rw [haccepted] at hcall
    rw [mem_singleton.mp (mem_of_getElem? hcall)]
    rfl
  · rw [haccepted]
    rfl

end Server

end Shelter.Fs
