import Mathlib.Data.List.Nodup
import Shelter.Fs.Calls
import Shelter.Fs.Reply

/-!
# The reply to READ

A `READ` splits its writer behind the header, lets the file system write through the second part and
writes the header through the first. Over the writable bytes of the chain, in order, this leaves the
reply that was meant exactly if the cut does not go through a descriptor and the descriptors given
to `preadv` hold no more than was asked for (`read_replied_iff`): the vectored read limits itself to
whole descriptors, and a slice that is cut keeps its end on both sides.

1. `read_delivers` is what the file system writes through the second part.
2. `readAt_fits` adds the header that is written through the first.
3. `splitAt_boundary` and `splitAt_inside` are the two kinds of cuts.
-/

open Bytes

namespace Shelter.Fs

open Virtio Prog Passthrough DescriptorChainConsumer List

variable {M : Type} [GuestMemory M]

/-! ## The file system -/

namespace Passthrough

def fileContent (host : Host) (s : Served) (inode : U64) : List Byte :=
  if inode = s.fs.initInode then host.initBinary else host.content s.thread.log.length

def delivered (host : Host) (s : Served) (inode handle : U64) (w : Writer) (size : U32)
    (offset : U64) : Except IoErr (List Byte) :=
  if inode = s.fs.initInode then
    .ok ((host.initBinary.drop offset.toNat).take (min size.toNat w.addrs.length))
  else match openFileOf s inode handle with
    | none => .error (.os .ebadf)
    | some _ =>
      let bufs := takeBuffers size.toNat 0 w.buffer.buffers
      if bufs = [] then .ok []
      else match transfer host offset s.thread.log.length with
        | .error code => .error (.os code)
        | .ok k => .ok (((host.content s.thread.log.length).drop offset.toNat).take
            (min k (addrsOf bufs).length))

/-- `read` ends with `out`, whose bytes stand at the next addresses. -/
def Delivers (host : Host) (s : Served) (inode handle : U64) (w : Writer) (size : U32)
    (offset : U64) (m : M) (out : Except IoErr (List Byte)) : Prop :=
  ∃ s' m', read host inode handle w size offset (s, m) = some (out.map List.length, (s', m')) ∧
    Stored (w.addrs.take (out.toOption.getD []).length) (out.toOption.getD []) m m'

section Delivers

variable {w : Writer} {m : M} {inode offset : U64} {host : Host} {n : ℕ}

theorem preadv_ok {k : ℕ} (h : transfer host offset n = .ok k) (bufs : List VolatileSlice) :
    preadv host offset n bufs =
      (((host.content n).drop offset.toNat).take (min k (addrsOf bufs).length),
        .ok (((host.content n).drop offset.toNat).take (min k (addrsOf bufs).length)).length) := by
  unfold preadv
  rw [h, length_addrsOf]

theorem preadv_error {code : Errno} (h : transfer host offset n = .error code)
    (bufs : List VolatileSlice) : preadv host offset n bufs = ([], .error .other) := by
  unfold preadv
  rw [h]

variable [LawfulGuestMemory M] (host) (s : Served) (handle : U64) (size : U32) (hw : w.Ready m)
include hw

theorem read_initBinary (hend : offset.toNat ≤ host.initBinary.length) :
    Delivers host s s.fs.initInode handle w size offset m
      (.ok ((host.initBinary.drop offset.toNat).take (min size.toNat w.addrs.length))) := by
  set len := if offset.toNat + size.toNat < host.initBinary.length then size.toNat
    else host.initBinary.length - offset.toNat with hlen
  obtain ⟨e, w', hrun, hstored, -⟩ :=
    Writer.write_spec hw ((host.initBinary.drop offset.toNat).take len)
  have hdata : ((host.initBinary.drop offset.toNat).take len).take w.addrs.length =
      (host.initBinary.drop offset.toNat).take (min size.toNat w.addrs.length) := by
    rw [take_take, take_eq_take_iff, length_drop]
    split_ifs at hlen <;> omega
  have hcount := congrArg List.length hdata
  rw [length_take, min_comm] at hcount
  refine ⟨s, e.mem, ?_, ?_⟩
  · unfold read
    rw [if_pos rfl, if_neg (by simpa using hend)]
    simp only [← hlen, hrun, hcount]
    rfl
  · have htake : w.addrs.take ((host.initBinary.drop offset.toNat).take len).length =
        w.addrs.take ((host.initBinary.drop offset.toNat).take
          (min size.toNat w.addrs.length)).length := by
      rw [take_eq_take_iff, ← hcount]
      omega
    rwa [hdata, htake] at hstored

theorem read_openFile (hinit : inode ≠ s.fs.initInode) {data : HandleData}
    (hopen : openFileOf s inode handle = some data) :
    Delivers host s inode handle w size offset m
      (delivered host s inode handle w size offset) := by
  have hfile := getHandle_run inode handle s
  rw [hopen] at hfile
  have hspec := Writer.writeFrom_spec (preadv host offset s.thread.log.length) size.toNat
    (by
      intro bufs n hn
      rcases ht : transfer host offset s.thread.log.length with code | k
      · rw [preadv_error ht] at hn
        cases hn
      · rw [preadv_ok ht] at hn ⊢
        cases hn
        rw [length_take]
        omega)
    (by
      intro bufs e he
      rcases ht : transfer host offset s.thread.log.length with code | k
      · rw [preadv_error ht]
      · rw [preadv_ok ht] at he
        cases he)
    hw
  unfold Delivers read
  rw [delivered, if_neg hinit, hopen]
  simp only [if_neg hinit, hfile]
  rcases hspec with ⟨hnil, hrun⟩ | ⟨bufs, e, hbufs, hne, hstored, hres⟩
  · rw [hrun, if_pos hnil]
    exact ⟨_, m, rfl, .refl m⟩
  · rw [← hbufs, if_neg hne]
    rcases ht : transfer host offset s.thread.log.length with code | k
    · rw [preadv_error ht] at hstored hres
      obtain ⟨err, herr, hrun⟩ | ⟨n, w', ⟨⟩, -⟩ := hres
      · cases herr
        have hcode : transferError host offset s.thread.log.length .other = .os code := by
          unfold transferError
          rw [ht]
        rw [hrun]
        refine ⟨recordTransfer bufs none (.preadv data.file bufs offset) false s, e.mem, ?_,
          hstored⟩
        simp only [Except.mapError, hcode]
        rfl
    · rw [preadv_ok ht] at hstored hres
      obtain ⟨err, ⟨⟩, -⟩ | ⟨n, w', hn, hrun, -⟩ := hres
      · cases hn
        rw [hrun]
        exact ⟨_, e.mem, rfl, hstored⟩

theorem read_delivers
    (hend : inode = s.fs.initInode → offset.toNat ≤ host.initBinary.length) :
    Delivers host s inode handle w size offset m
      (delivered host s inode handle w size offset) := by
  by_cases hinit : inode = s.fs.initInode
  · rw [delivered, if_pos hinit, hinit]
    exact read_initBinary host s handle size hw (hend hinit)
  have hfile := getHandle_run inode handle s
  rcases hopen : openFileOf s inode handle with _ | data <;> rw [hopen] at hfile
  · rw [delivered, if_neg hinit, hopen]
    refine ⟨s, m, ?_, .refl m⟩
    unfold read
    simp only [if_neg hinit, hfile]
    rfl
  · exact read_openFile host s handle size hw hinit hopen

end Delivers

end Passthrough

/-! ## The server -/

namespace Server

/-- `read` of the server when the writer is split. -/
def readAt {F : Type} (fs : FileSystem M F) (h : InHeader) (readIn : TransferIn) (w₁ w₂ : Writer) :
    Step M F ℕ := do
  let owner := if readIn.transferFlags &&& readLockowner ≠ 0 then some readIn.lockOwner else none
  match ← callRead (fs.read h.context h.nodeid readIn.fh w₂ readIn.size readIn.offset owner
    readIn.flags) with
  | .ok count => finish count h.unique w₁
  | .error e => replyError e h.unique w₁

variable {F : Type} {h : InHeader} {r : Reader} {w w₁ w₂ : Writer} {readIn : TransferIn}
  {s s' : ServerState M Served} {m : M} {inode : U64} {as : List ℕ} {n : ℕ}

theorem read_eq {fs : FileSystem M F} {r' : Reader} {s : ServerState M F} {obj : List Byte}
    (hr : readObj r 40 s = some (.ok (obj, r'), s))
    (hsize : ¬ maxBufferSize < (TransferIn.ofBytes obj).size)
    (hsplit : splitHeader w s = some (.ok (w₁, w₂), s)) :
    read fs h r w s = readAt fs h (.ofBytes obj) w₁ w₂ s := by
  unfold read
  rw [bind_ok hr]
  dsimp only
  rw [if_neg hsize, bind_ok hsplit]
  rfl

def readHeader (unique : U64) : Except IoErr (List Byte) → OutHeader
  | .ok data => ⟨BitVec.ofNat 32 (16 + data.length), 0, unique⟩
  | .error e => ⟨16, -(e.rawOsError.getD .eio), unique⟩

theorem appends_finish [LawfulGuestMemory M] {s : ServerState M F} (hw : w.Ready s.mem)
    (unique : U64) (data : List Byte) :
    Appends w (readHeader unique (.ok data)).toBytes s (finish data.length unique w)
      fun _ => (BitVec.ofNat 32 (16 + data.length)).toNat := by
  rw [← append_nil (OutHeader.toBytes _)]
  exact appends_writeAll hw fun _ _ hw' => appends_pure hw' fun _ => _

/-- The data is written through the second writer, and then the header through the first, if there
is room. -/
theorem readAt_run [LawfulGuestMemory M] (host : Host) (hw₁ : w₁.Ready s.mem)
    (hw₂ : w₂.Ready s.mem)
    (hend : h.nodeid = s.fs.fs.initInode → readIn.offset.toNat ≤ host.initBinary.length) :
    ∃ m₁ out, out = delivered host s.fs h.nodeid readIn.fh w₂ readIn.size readIn.offset ∧
      Stored (w₂.addrs.take (out.toOption.getD []).length) (out.toOption.getD []) s.mem m₁ ∧
      ((16 ≤ w₁.addrs.length ∧ ∃ n s',
          readAt (fileSystem M host) h readIn w₁ w₂ s = some (.ok n, s') ∧
          Stored (w₁.addrs.take 16) (readHeader h.unique out).toBytes m₁ s'.mem) ∨
        (w₁.addrs.length < 16 ∧ ∃ s',
          readAt (fileSystem M host) h readIn w₁ w₂ s =
            some (.error .encodeMessage, s'))) := by
  obtain ⟨fs', m₁, hrun, hstored⟩ :=
    read_delivers host s.fs readIn.fh readIn.size hw₂ hend
  refine ⟨m₁, _, rfl, hstored, ?_⟩
  set out := delivered host s.fs h.nodeid readIn.fh w₂ readIn.size readIn.offset
  have hready : w₁.Ready m₁ := (Writer.after_zero hw₁.counted).ready hw₁ hstored.layout
  have hcall : callRead ((fileSystem M host).read h.context h.nodeid readIn.fh w₂
      readIn.size readIn.offset
      (if readIn.transferFlags &&& readLockowner ≠ 0 then some readIn.lockOwner else none)
      readIn.flags) s = some (.ok (out.map List.length), { s with fs := fs', mem := m₁ }) := by
    unfold callRead
    rw [show (fileSystem M host).read h.context h.nodeid readIn.fh w₂ readIn.size
      readIn.offset _ readIn.flags (s.fs, s.mem) = _ from hrun]
    rfl
  -- both ends append a header of 16 bytes to the first writer
  obtain ⟨x, result, hx, happ⟩ : ∃ (x : Step M Served ℕ) (result : Writer → ℕ),
      readAt (fileSystem M host) h readIn w₁ w₂ s = x { s with fs := fs', mem := m₁ } ∧
      Appends w₁ (readHeader h.unique out).toBytes { s with fs := fs', mem := m₁ } x result := by
    unfold readAt
    rw [bind_ok hcall]
    rcases out with e | data
    · exact ⟨_, _, rfl, appends_replyError (s := { s with fs := fs', mem := m₁ }) hready h.unique e⟩
    · exact ⟨_, _, rfl, appends_finish (s := { s with fs := fs', mem := m₁ }) hready h.unique data⟩
  rw [hx]
  rcases lt_or_ge w₁.addrs.length 16 with hlt | hge
  · obtain ⟨m', hshort⟩ := happ.short (by rwa [OutHeader.length_toBytes])
    exact .inr ⟨hlt, _, hshort⟩
  · obtain ⟨w', m', hfits, hheader, -⟩ := happ.fits (by rwa [OutHeader.length_toBytes])
    exact .inl ⟨hge, _, _, hfits, hheader⟩

theorem readAt_panics (host : Host) (w₁ w₂ : Writer) (hinit : h.nodeid = s.fs.fs.initInode)
    (hend : host.initBinary.length < readIn.offset.toNat) :
    readAt (Passthrough.fileSystem M host) h readIn w₁ w₂ s = none := by
  refine bind_none ?_
  unfold callRead
  have hread : Passthrough.read host h.nodeid readIn.fh w₂ readIn.size readIn.offset
      (s.fs, s.mem) = none := by
    unfold Passthrough.read
    rw [if_pos hinit, if_pos hend]
  rw [show (fileSystem M host).read h.context h.nodeid readIn.fh w₂ readIn.size
    readIn.offset _ readIn.flags (s.fs, s.mem) = none from hread]
  rfl

/-! ## The two kinds of cuts -/

theorem ready_of_sublist {w' : Writer} (hw : w.Ready m) (hsub : w'.addrs.Sublist w.addrs)
    (hbytes : w'.bytesWritten ≤ w.bytesWritten) : w'.Ready m where
  counted := by
    have hc := hw.counted
    have hlen : (addrsOf w'.buffer.buffers).length ≤ (addrsOf w.buffer.buffers).length :=
      hsub.length_le
    unfold DescriptorChainConsumer.Counted at hc ⊢
    unfold Writer.bytesWritten at hbytes
    omega
  nodup := hw.nodup.sublist hsub
  mapped x hx := hw.mapped x (hsub.subset hx)

omit [GuestMemory M] in
theorem splitHeader_run (h : w.splitAt 16 = .ok (w₁, w₂)) (s : ServerState M F) :
    splitHeader w s = some (.ok (w₁, w₂), s) := by
  unfold splitHeader
  rw [show w.splitAt OutHeader.size = _ from h]
  rfl

theorem splitAt_boundary (hw : w.Ready m) (h : Boundary 16 w.buffer.buffers) :
    ∃ w₁ w₂, w.splitAt 16 = .ok (w₁, w₂) ∧ w₁.Ready m ∧ w₂.Ready m ∧
      w₁.addrs = w.addrs.take 16 ∧ w₂.addrs = w.addrs.drop 16 := by
  obtain ⟨c₁, c₂, hsplit, h₁, h₂, hb₁, hb₂⟩ := DescriptorChainConsumer.splitAt_boundary h
  replace h₁ : (Writer.mk c₁).addrs = w.addrs.take 16 := h₁
  replace h₂ : (Writer.mk c₂).addrs = w.addrs.drop 16 := h₂
  refine ⟨⟨c₁⟩, ⟨c₂⟩, ?_, ready_of_sublist hw ?_ hb₁.le, ready_of_sublist hw ?_ ?_, h₁, h₂⟩
  · rw [Writer.splitAt, hsplit]
    rfl
  · exact h₁ ▸ take_sublist _ _
  · exact h₂ ▸ drop_sublist _ _
  · exact hb₂.le.trans (Nat.zero_le _)

/-- The last bytes of the header before a cut inside a descriptor are in neither part. -/
theorem splitAt_inside (hw : w.Ready m) (h : ¬ Boundary 16 w.buffer.buffers)
    (hlen : 16 ≤ w.addrs.length) :
    ∃ w₁ w₂, w.splitAt 16 = .ok (w₁, w₂) ∧ w₁.Ready m ∧ w₂.Ready m ∧
      w.addrs[15] ∉ w₁.addrs ∧ w.addrs[15] ∉ w₂.addrs := by
  obtain ⟨c₁, c₂, k, tail, hsplit, hk, h₁, ⟨rest, htail⟩, h₂, hb₁, hb₂⟩ :=
    splitAt_inside_slice h hlen
  replace h₁ : (Writer.mk c₁).addrs = w.addrs.take k ++ tail := h₁
  replace h₂ : (Writer.mk c₂).addrs = w.addrs.drop 16 := h₂
  replace htail : tail ++ rest = w.addrs.drop 16 := htail
  have hfront : w.addrs[15] ∉ w.addrs.take k := by
    rw [mem_take_iff_getElem]
    rintro ⟨i, hi, heq⟩
    have := List.Nodup.getElem_inj_iff hw.nodup |>.mp heq
    omega
  have hback : w.addrs[15] ∉ w.addrs.drop 16 := by
    rw [mem_drop_iff_getElem]
    rintro ⟨i, hi, heq⟩
    have := List.Nodup.getElem_inj_iff hw.nodup |>.mp heq
    omega
  refine ⟨⟨c₁⟩, ⟨c₂⟩, ?_, ready_of_sublist hw ?_ hb₁.le, ready_of_sublist hw ?_ ?_, ?_, h₂ ▸ hback⟩
  · rw [Writer.splitAt, hsplit]
    rfl
  · rw [h₁]
    conv_rhs => rw [← take_append_drop k w.addrs]
    have hdrop : tail ++ rest = (w.addrs.drop k).drop (16 - k) := by
      rw [htail, drop_drop, Nat.add_sub_cancel' hk.le]
    have htail' : tail.Sublist (tail ++ rest) := sublist_append_left tail rest
    rw [hdrop] at htail'
    exact (List.Sublist.refl _).append (htail'.trans (drop_sublist _ _))
  · exact h₂ ▸ drop_sublist _ _
  · exact hb₂.le.trans (Nat.zero_le _)
  · rw [h₁, mem_append, not_or]
    exact ⟨hfront, fun hmem => hback (htail ▸ mem_append_left rest hmem)⟩

/-! ## The reply over the writable bytes -/

/-- The bytes of the file that a `READ` is to return: what the host gives, but not more than was
asked for, and than there is room for. -/
def readData (host : Host) (s : Served) (inode : U64) (size : U32) (offset : U64) (room : ℕ) :
    List Byte :=
  let limit := if inode = s.fs.initInode then host.initBinary.length
    else (transfer host offset s.thread.log.length).toOption.getD 0
  ((fileContent host s inode).drop offset.toNat).take (min limit (min size.toNat room))

/-- A `READ` is refused for its size, for the handle, or by the host. -/
def ReadRefused (host : Host) (s : Served) (inode : U64) (readIn : TransferIn) (code : Errno) :
    Prop :=
  (maxBufferSize < readIn.size ∧ code = .enomem) ∨ (inode ≠ s.fs.initInode ∧
    ((openFileOf s inode readIn.fh = none ∧ code = .ebadf) ∨
      transfer host readIn.offset s.thread.log.length = .error code))

/-- The reply to a `READ` stands at the beginning of these addresses, and no other byte was written:
a header with the length and the bytes of the file, or a header with the error. -/
def ReadReplied (host : Host) (s : Served) (inode : U64) (readIn : TransferIn) (unique : U64)
    (as : List ℕ) (m m' : M) : Prop :=
  (∃ data, data = readData host s inode readIn.size readIn.offset (as.length - 16) ∧
    Stored (as.take (16 + data.length)) ((readHeader unique (.ok data)).toBytes ++ data) m m') ∨
  ∃ code, ReadRefused host s inode readIn code ∧
    Stored (as.take 16) (readHeader unique (.error (.os code))).toBytes m m'

def dataSlices (w : Writer) : List VolatileSlice :=
  match w.splitAt 16 with
  | .ok ws => ws.2.buffer.buffers
  | .error _ => []

/-- The header ends with a descriptor; the built-in program is not read from behind its end; and the
descriptors that `preadv` gets for an open file hold no more than was asked for. -/
def ReadFits (program : List Byte) (s : Served) (inode : U64) (readIn : TransferIn) (w : Writer) :
    Prop :=
  maxBufferSize < readIn.size ∨ (Boundary 16 w.buffer.buffers ∧
    if inode = s.fs.initInode then readIn.offset.toNat ≤ program.length
    else openFileOf s inode readIn.fh ≠ none → readIn.offset.toNat < 2 ^ 63 →
      (addrsOf (takeBuffers readIn.size.toNat 0 (dataSlices w))).length ≤
        readIn.size.toNat)

theorem ReadReplied.header {host : Host} {s : Served} {unique : U64} {m' : M}
    (h : ReadReplied host s inode readIn unique as m m') :
    ∃ n ≤ readIn.size.toNat, ∃ error,
      contents m' (as.take 16) = OutHeader.toBytes ⟨BitVec.ofNat 32 (16 + n), error, unique⟩ := by
  rcases h with ⟨data, hdata, hstored⟩ | ⟨code, -, hstored⟩
  · refine ⟨data.length, ?_, 0, ?_⟩
    · rw [hdata, readData, length_take]
      omega
    · exact hstored.bytes_left (OutHeader.length_toBytes _)
  · exact ⟨0, Nat.zero_le _, _, hstored.bytes⟩

theorem length_takeBuffers_eq {size : ℕ} {l : List VolatileSlice}
    (h : (addrsOf (takeBuffers size 0 l)).length ≤ size) :
    (addrsOf (takeBuffers size 0 l)).length =
      min size (addrsOf l).length := by
  obtain ⟨hpre, hlen⟩ := takeBuffers_spec size 0 l
  have := hpre.length_le
  omega

theorem delivered_cases (host : Host) (s : Served)
    (hfits : inode ≠ s.fs.initInode → openFileOf s inode readIn.fh ≠ none →
      readIn.offset.toNat < 2 ^ 63 →
      (addrsOf (takeBuffers readIn.size.toNat 0 w₂.buffer.buffers)).length ≤
        readIn.size.toNat) :
    delivered host s inode readIn.fh w₂ readIn.size readIn.offset =
        .ok (readData host s inode readIn.size readIn.offset w₂.addrs.length) ∨
      ∃ code, ReadRefused host s inode readIn code ∧
        delivered host s inode readIn.fh w₂ readIn.size readIn.offset =
          .error (.os code) := by
  unfold delivered readData fileContent
  by_cases hinit : inode = s.fs.initInode
  · left
    simp only [if_pos hinit]
    congr 1
    rw [take_eq_take_iff, length_drop]
    omega
  simp only [if_neg hinit]
  rcases hopen : openFileOf s inode readIn.fh with _ | data
  · exact .inr ⟨.ebadf, .inr ⟨hinit, .inl ⟨hopen, rfl⟩⟩, rfl⟩
  rcases ht : transfer host readIn.offset s.thread.log.length with code | k
  · by_cases hnil : takeBuffers readIn.size.toNat 0 w₂.buffer.buffers = []
    · left
      simp [hnil, Except.toOption]
    · exact .inr ⟨code, .inr ⟨hinit, .inr ht⟩, by simp [hnil]⟩
  · left
    have hoff : readIn.offset.toNat < 2 ^ 63 := by
      unfold transfer at ht
      split_ifs at ht with h
      omega
    have hlen := length_takeBuffers_eq (hfits hinit (by simp [hopen]) hoff)
    by_cases hnil : takeBuffers readIn.size.toNat 0 w₂.buffer.buffers = []
    · have hmin := takeBuffers_eq_nil hnil
      have : (addrsOf w₂.buffer.buffers).length = w₂.addrs.length := rfl
      rw [this] at hmin
      simp [hnil, Except.toOption, hmin]
    · simp only [if_neg hnil, hlen]
      rfl

theorem last_byte_of_header {header : OutHeader} (h : contents m (as.take 16) = header.toBytes)
    (hlen : 16 ≤ as.length) : some (byte m as[15]) = (le header.unique)[7]? := by
  have hlast := congrArg (fun bs => bs[15]?) h
  simp only [contents, OutHeader.toBytes, List.getElem?_map, List.getElem?_take] at hlast
  simpa [List.getElem?_eq_getElem (show 15 < as.length by omega)] using hlast

section Request

variable (host : Host) (hr : r.buffer.Counted) (hobj : 40 ≤ r.addrs.length)
  (hreadIn : readIn = .ofBytes (contents s.mem (r.addrs.take 40))) (hw : w.Ready s.mem)
  (hlen : 16 ≤ w.addrs.length)
include hr hobj hreadIn

theorem read_split (hsize : ¬ maxBufferSize < readIn.size) (hsplit : w.splitAt 16 = .ok (w₁, w₂)) :
    read (fileSystem M host) h r w s = readAt (fileSystem M host) h readIn w₁ w₂ s := by
  obtain ⟨-, r', hread, -⟩ | ⟨hshort, -⟩ := readObj_run hr s 40
  · rw [read_eq hread (hreadIn ▸ hsize) (splitHeader_run hsplit s), ← hreadIn]
  · omega

include hw

theorem read_past_end (hsize : ¬ maxBufferSize < readIn.size) (hb : Boundary 16 w.buffer.buffers)
    (hinit : h.nodeid = s.fs.fs.initInode) (hend : host.initBinary.length < readIn.offset.toNat) :
    read (fileSystem M host) h r w s = none := by
  obtain ⟨w₁, w₂, hsplit, -⟩ := splitAt_boundary hw hb
  rw [read_split host hr hobj hreadIn hsize hsplit]
  exact readAt_panics host w₁ w₂ hinit hend

include hlen

variable [LawfulGuestMemory M]

theorem read_boundary (hsize : ¬ maxBufferSize < readIn.size) (hb : Boundary 16 w.buffer.buffers)
    (hend : h.nodeid = s.fs.fs.initInode → readIn.offset.toNat ≤ host.initBinary.length) :
    ∃ n s' w₂ out data, w₂.buffer.buffers = dataSlices w ∧ w₂.addrs = w.addrs.drop 16 ∧
      out = delivered host s.fs h.nodeid readIn.fh w₂ readIn.size readIn.offset ∧
      data = out.toOption.getD [] ∧
      read (fileSystem M host) h r w s = some (.ok n, s') ∧
      Stored (w.addrs.take (16 + data.length)) ((readHeader h.unique out).toBytes ++ data) s.mem
        s'.mem := by
  obtain ⟨w₁, w₂, hsplit, hw₁, hw₂, ha₁, ha₂⟩ := splitAt_boundary hw hb
  obtain ⟨m₁, out, hout, hdata, ⟨-, n, s', hrun, hheader⟩ | ⟨hlt, -⟩⟩ :=
    readAt_run host hw₁ hw₂ hend
  · refine ⟨n, s', w₂, out, _, ?_, ha₂, hout, rfl, ?_, ?_⟩
    · rw [dataSlices, hsplit]
    · rw [read_split host hr hobj hreadIn hsize hsplit, hrun]
    · have hnodup := hw.nodup
      rw [← take_append_drop 16 w.addrs] at hnodup
      have hapart := (nodup_append.mp hnodup).2.2
      rw [ha₁, take_take, min_self] at hheader
      rw [ha₂] at hdata
      rw [take_add]
      exact hdata.prepend hheader fun x hx hx' => hapart x hx' x (mem_of_mem_take hx) rfl
  · rw [ha₁, length_take_of_le hlen] at hlt
    omega

theorem readReplied_of_fits (hfits : ReadFits host.initBinary s.fs h.nodeid readIn w) :
    ∃ n s', read (fileSystem M host) h r w s = some (.ok n, s') ∧
      ReadReplied host s.fs h.nodeid readIn h.unique w.addrs s.mem s'.mem := by
  by_cases hsize : maxBufferSize < readIn.size
  · obtain ⟨-, r', hread, -⟩ | ⟨hshort, -⟩ := readObj_run hr s 40
    · obtain ⟨w', m', hrun, hstored, -⟩ := (appends_replyError hw h.unique (.os .enomem)).fits hlen
      refine ⟨w'.bytesWritten, { s with mem := m' }, ?_,
        .inr ⟨.enomem, .inl ⟨hsize, rfl⟩, hstored⟩⟩
      unfold read
      rw [bind_ok hread]
      dsimp only
      rw [if_pos (hreadIn ▸ hsize), hrun]
    · omega
  · obtain ⟨hb, hcond⟩ := hfits.resolve_left hsize
    obtain ⟨n, s', w₂, out, data, hslices, ha₂, hout, hdata, hrun, hstored⟩ :=
      read_boundary host hr hobj hreadIn hw hlen hsize hb fun hinit => by
        rwa [if_pos hinit] at hcond
    refine ⟨n, s', hrun, ?_⟩
    have hroom : w₂.addrs.length = w.addrs.length - 16 := by rw [ha₂, length_drop]
    have hcut : h.nodeid ≠ s.fs.fs.initInode → _ := fun hinit => by
      rw [if_neg hinit, ← hslices] at hcond
      exact hcond
    rcases delivered_cases host s.fs hcut with hdel | ⟨code, hcode, hdel⟩
    · rw [hdel, hroom] at hout
      rw [hout] at hdata hstored
      subst hdata
      exact .inl ⟨_, rfl, hstored⟩
    · rw [hdel] at hout
      rw [hout] at hdata hstored
      subst hdata
      exact .inr ⟨code, hcode, by simpa [Except.toOption] using hstored⟩

theorem read_inside (hsize : ¬ maxBufferSize < readIn.size) (hb : ¬ Boundary 16 w.buffer.buffers)
    (hrun : read (fileSystem M host) h r w s = some (.ok n, s')) :
    byte s'.mem w.addrs[15] = byte s.mem w.addrs[15] := by
  obtain ⟨w₁, w₂, hsplit, hw₁, hw₂, hout₁, hout₂⟩ := splitAt_inside hw hb hlen
  rw [read_split host hr hobj hreadIn hsize hsplit] at hrun
  by_cases hend : h.nodeid = s.fs.fs.initInode ∧ host.initBinary.length < readIn.offset.toNat
  · cases (readAt_panics host w₁ w₂ hend.1 hend.2).symm.trans hrun
  · obtain ⟨m₁, out, -, hdata, ⟨-, n', s₁, hrun', hheader⟩ | ⟨-, s₁, hrun'⟩⟩ :=
      readAt_run host hw₁ hw₂ fun hinit : h.nodeid = s.fs.fs.initInode =>
        not_lt.mp fun hlt : host.initBinary.length < readIn.offset.toNat => hend ⟨hinit, hlt⟩
    · cases hrun'.symm.trans hrun
      rw [hheader.frame _ fun hmem => hout₁ (mem_of_mem_take hmem),
        hdata.frame _ fun hmem => hout₂ (mem_of_mem_take hmem)]
    · cases hrun'.symm.trans hrun

/-- A host that fills the buffers it gets with zeros, up to `n` bytes. -/
def zeroHost (program : List Byte) (offset n : ℕ) : Host :=
  { calmHost with
    count := fun _ => .ok n
    content := fun _ => List.replicate (offset + n) 0
    initBinary := program }

theorem read_too_long (program : List Byte) (hsize : ¬ maxBufferSize < readIn.size)
    (hb : Boundary 16 w.buffer.buffers) (hinit : h.nodeid ≠ s.fs.fs.initInode)
    (hopen : openFileOf s.fs h.nodeid readIn.fh ≠ none)
    (hoff : readIn.offset.toNat < 2 ^ 63)
    (hlong : readIn.size.toNat < (addrsOf (takeBuffers readIn.size.toNat 0
      (dataSlices w))).length)
    (hrun : read (fileSystem M
      (zeroHost program readIn.offset.toNat (readIn.size.toNat + 1))) h r w s = some (.ok n, s')) :
    contents s'.mem (w.addrs.take 16) =
      OutHeader.toBytes ⟨BitVec.ofNat 32 (16 + (readIn.size.toNat + 1)), 0, h.unique⟩ := by
  set host := zeroHost program readIn.offset.toNat (readIn.size.toNat + 1) with hhost
  obtain ⟨n', s₁, w₂, out, data, hslices, -, hout, hdata, hrun', hstored⟩ :=
    read_boundary host hr hobj hreadIn hw hlen hsize hb fun h => absurd h hinit
  cases hrun'.symm.trans hrun
  have hdel : out = .ok (List.replicate (readIn.size.toNat + 1) 0) := by
    have hne : takeBuffers readIn.size.toNat 0 w₂.buffer.buffers ≠ [] := by
      intro hnil
      rw [← hslices, hnil] at hlong
      exact absurd hlong (Nat.not_lt_zero _)
    have ht : transfer host readIn.offset s.fs.thread.log.length =
        .ok (readIn.size.toNat + 1) := by
      rw [transfer, if_neg (by omega)]
      rfl
    obtain ⟨data, hfile⟩ := Option.ne_none_iff_exists'.mp hopen
    rw [hslices] at hne
    rw [hout, delivered, if_neg hinit, hfile]
    simp only [hslices, if_neg hne, ht, Nat.min_eq_left hlong]
    simp [hhost, zeroHost]
  rw [hdel] at hdata hstored
  rw [hstored.bytes_left (OutHeader.length_toBytes _), readHeader, length_replicate]

end Request

/-- A `READ` over these buffers is answered as it should be, for every file and every host, exactly
under the condition. -/
theorem read_replied_iff [LawfulGuestMemory M] {m : M} {r : Reader} {w : Writer}
    (hr : r.buffer.Counted) (hobj : 40 ≤ r.addrs.length) (hw : w.Ready m)
    (hlen : 16 ≤ w.addrs.length) (shm : Option VirtioShmRegion) (served : Served)
    (program : List Byte) (inode : U64)
    {readIn : TransferIn} (hreadIn : readIn = .ofBytes (contents m (r.addrs.take 40))) :
    (∀ (host : Host) (h : InHeader) (options : U64) (actions : List Action),
      host.initBinary = program → h.nodeid = inode → Opcode.ofU32 h.opcode = some .read →
        ∃ n s', dispatch (fileSystem M host) shm h r w ⟨served, options, m, actions⟩ =
            some (.ok n, s') ∧
          ReadReplied host served inode readIn h.unique w.addrs m s'.mem) ↔
      ReadFits program served inode readIn w := by
  have hdispatch (host : Host) {h : InHeader} (s : ServerState M Served)
      (hop : Opcode.ofU32 h.opcode = some .read) :
      dispatch (fileSystem M host) shm h r w s =
        read (fileSystem M host) h r w s := by
    rw [dispatch, hop]
  constructor
  · intro hall
    by_contra hnot
    rw [ReadFits, not_or] at hnot
    obtain ⟨hsize, hnot⟩ := hnot
    have hreq (unique : U64) := hall (zeroHost program readIn.offset.toNat (readIn.size.toNat + 1))
      ⟨0, 15, unique, inode, 0, 0, 0⟩ 0 [] rfl rfl rfl
    by_cases hb : Boundary 16 w.buffer.buffers
    · have hend : inode = served.fs.initInode → readIn.offset.toNat ≤ program.length := by
        intro hinit
        by_contra hlt
        obtain ⟨n, s', hrun, -⟩ := hreq 0
        rw [hdispatch _ _ rfl, read_past_end _ hr hobj hreadIn hw hsize hb hinit (by
          simpa [zeroHost] using hlt)] at hrun
        cases hrun
      have hlong : inode ≠ served.fs.initInode ∧
          openFileOf served inode readIn.fh ≠ none ∧ readIn.offset.toNat < 2 ^ 63 ∧
          readIn.size.toNat < (addrsOf (takeBuffers readIn.size.toNat 0
            (dataSlices w))).length := by
        by_cases hinit : inode = served.fs.initInode
        · exact absurd ⟨hb, by rw [if_pos hinit]; exact hend hinit⟩ hnot
        · rw [if_neg hinit] at hnot
          by_contra hle
          refine hnot ⟨hb, fun hopen hoff => Nat.le_of_not_lt fun hlt => ?_⟩
          exact hle ⟨hinit, hopen, hoff, hlt⟩
      obtain ⟨n, s', hrun, hreply⟩ := hreq 0
      obtain ⟨k, hk, error, hheader⟩ := hreply.header
      have hlen' := congrArg (word 32 · 0) ((read_too_long hr hobj hreadIn hw hlen program hsize hb
        hlong.1 hlong.2.1 hlong.2.2.1 hlong.2.2.2 hrun).symm.trans hheader)
      simp only [OutHeader.toBytes_word_len] at hlen'
      have := congrArg BitVec.toNat hlen'
      simp only [BitVec.toNat_ofNat] at this
      have : readIn.size.toNat ≤ 2 ^ 20 := by
        rw [BitVec.not_lt] at hsize
        exact BitVec.le_def.mp hsize
      omega
    · -- the last byte of the header would have to be that of every request
      have hlast (unique : U64) : some (byte m w.addrs[15]) = (le unique)[7]? := by
        obtain ⟨n, s', hrun, hreply⟩ := hreq unique
        obtain ⟨k, -, error, hheader⟩ := hreply.header
        rw [← last_byte_of_header hheader hlen]
        exact congrArg some (read_inside _ hr hobj hreadIn hw hlen hsize hb hrun).symm
      exact absurd ((hlast 0).symm.trans (hlast (-1))) (by decide)
  · rintro hfits host h options actions rfl rfl hop
    rw [hdispatch _ _ hop]
    exact readReplied_of_fits host hr hobj hreadIn hw hlen hfits

/-! ## Three layouts -/

/-- `READ` of `size` bytes from the beginning of the file that is open under the handle 1. -/
def readBytes (inode : U64) (size : U32) : List Byte :=
  requestBytes 15 inode 0 0 (le (1 : U64) ++ le (0 : U64) ++ le size ++ le (0 : U32) ++
    le (0 : U64) ++ le (0 : U32) ++ le (0 : U32))

def openServed : Served :=
  ⟨{ PassthroughFs.new smallConfig 3 with
      handles := Function.update (fun _ => none) 1 (some ⟨5, 20⟩), nextHandle := 2 }, ⟨0, 0, []⟩⟩

/-- A file of 40 letters, and a host that reads as much as it may. -/
def lettersHost : Host :=
  { calmHost with count := fun _ => .ok 100, content := fun _ => List.replicate 40 65 }

/-- With descriptors for the header and for the bytes asked for, every `READ` is answered. -/
theorem read_replied_aligned :
    Boundary 16 [⟨0x800, 16⟩, ⟨0x810, 20⟩] ∧
    ∀ (host : Host) (h : InHeader) (options : U64) (actions : List Action),
      host.initBinary = [] → h.nodeid = 5 → Opcode.ofU32 h.opcode = some .read →
        ∃ n s', dispatch (fileSystem FlatMemory host) none h ⟨⟨[⟨0x128, 40⟩], 0⟩⟩
            ⟨⟨[⟨0x800, 16⟩, ⟨0x810, 20⟩], 0⟩⟩
            ⟨openServed, options, smallGuest (readBytes 5 20) [16, 20], actions⟩ =
              some (.ok n, s') ∧
          ReadReplied host openServed 5 ⟨1, 0, 20, 0, 0, 0⟩ h.unique (List.range' 0x800 36)
            (smallGuest (readBytes 5 20) [16, 20]) s'.mem :=
  ⟨by decide +kernel, (read_replied_iff (m := smallGuest (readBytes 5 20) [16, 20])
    (r := ⟨⟨[⟨0x128, 40⟩], 0⟩⟩) (w := ⟨⟨[⟨0x800, 16⟩, ⟨0x810, 20⟩], 0⟩⟩) (by decide +kernel)
    (by decide +kernel) ⟨by decide +kernel, by decide +kernel, by decide +kernel⟩
    (by decide +kernel) none openServed [] 5 (by decide +kernel)).mpr
      (.inr ⟨by decide +kernel, by decide +kernel⟩)⟩

/-- One descriptor for the whole reply: the header comes after the place where it belongs, over
the data. With a descriptor for the header, but more room than was asked for: 40 bytes are returned
where 20 were asked for. -/
theorem read_misplaced :
    (∃ s', handleMessage (fileSystem FlatMemory lettersHost) none
        ⟨⟨[⟨0x100, 80⟩], 0⟩⟩ ⟨⟨[⟨0x800, 100⟩], 0⟩⟩
        ⟨openServed, 0, smallGuest (readBytes 5 20) [100], []⟩ = some (.ok 56, s') ∧
      contents s'.mem (List.range' 0x800 16) = List.replicate 16 0 ∧
      contents s'.mem (List.range' 0x810 16) = OutHeader.toBytes ⟨56, 0, 7⟩) ∧
    ∃ s', handleMessage (fileSystem FlatMemory lettersHost) none
        ⟨⟨[⟨0x100, 80⟩], 0⟩⟩ ⟨⟨[⟨0x800, 16⟩, ⟨0x810, 84⟩], 0⟩⟩
        ⟨openServed, 0, smallGuest (readBytes 5 20) [16, 84], []⟩ = some (.ok 56, s') ∧
      contents s'.mem (List.range' 0x800 16) = OutHeader.toBytes ⟨56, 0, 7⟩ ∧
      contents s'.mem (List.range' 0x810 40) = List.replicate 40 65 := by
  have misplaced {bufs : List VolatileSlice} {sizes : List ℕ} {n : ℕ} {bs bs' : List Byte} :
      let run := handleMessage (fileSystem FlatMemory lettersHost) none ⟨⟨[⟨0x100, 80⟩], 0⟩⟩
        ⟨⟨bufs, 0⟩⟩ ⟨openServed, 0, smallGuest (readBytes 5 20) sizes, []⟩
      run.map (fun out => (out.1.toOption, contents out.2.mem (List.range' 0x800 16),
          contents out.2.mem (List.range' 0x810 n))) = some (some 56, bs, bs') →
        ∃ s', run = some (.ok 56, s') ∧ contents s'.mem (List.range' 0x800 16) = bs ∧
          contents s'.mem (List.range' 0x810 n) = bs' := by
    intro run h
    obtain ⟨s', hrun, hbytes⟩ := exists_ok (fun s : ServerState FlatMemory Served =>
      (contents s.mem _, contents s.mem _)) h
    exact ⟨s', hrun, Prod.mk.inj hbytes⟩
  constructor
  all_goals
    refine misplaced ?_
    decide +kernel

end Server

end Shelter.Fs
