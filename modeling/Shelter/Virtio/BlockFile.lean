import Shelter.Virtio.BlockRequest
import Shelter.Virtio.Transfers

/-!
# Block requests and the disk image

The device advertises a capacity of `nsectors` sectors, but checks no request against it: the offset
is the product of a 64-bit sector and 512, which wraps, and a write past the end makes the file
longer. The slices passed to the file are cut at no byte count, so that a read may also fill the
status byte, and the answer of the file may be short. `transfers_iff` says when a request stays in
the capacity and moves exactly its data.
-/

open Bytes Stores

namespace Shelter.Virtio.BlockWorker

open DescriptorChainConsumer List

variable {M D : Type} [GuestMemory M]

def sectorShift : ℕ := 9
def virtioBlkIdBytes : ℕ := 20

structure DiskProperties where
  cacheType : CacheType
  nsectors : U64
  imageId : List Byte

/-- The id of the image: the device id, cut or filled up to 20 bytes. Without one it is zero. -/
def buildDiskImageId (deviceId : Option (List Byte)) : List Byte :=
  let diskId := (deviceId.getD []).take virtioBlkIdBytes
  diskId ++ List.replicate (virtioBlkIdBytes - diskId.length) 0

def DiskProperties.new (cacheType : CacheType) (diskSize : U64) (deviceId : Option (List Byte)) :
    DiskProperties :=
  ⟨cacheType, diskSize >>> sectorShift, buildDiskImageId deviceId⟩

def DiskProperties.capacity (p : DiskProperties) : ℕ := p.nsectors.toNat * 512

/-- `bs` at an offset of a file. Writing nothing changes nothing; writing past the end leaves a gap
of zeros. -/
def overwrite (file : List Byte) (off : ℕ) (bs : List Byte) : List Byte :=
  if bs = [] then file
  else (file ++ List.replicate (off - file.length) 0).take off ++ bs ++
    file.drop (off + bs.length)

/-- A file with a content, which reads deliver from and writes change. A call fails, or it moves
what it is asked for, up to a number of bytes that the file has to give, or has room for, at the
place. -/
structure Disk.Backed (disk : Disk D) (content : D → List Byte) (gives takes : D → U64 → Option ℕ) :
    Prop extends disk.Lawful where
  readAt_count : ∀ d off bufs,
    (disk.readAt d off bufs).2.toOption = (gives d off).map (min (addrsOf bufs).length)
  writeAt_count : ∀ d off bs, (disk.writeAt d off bs).2.toOption = (takes d off).map (min bs.length)
  readAt_bytes : ∀ d off bufs n, (disk.readAt d off bufs).2 = .ok n →
    (disk.readAt d off bufs).1 = ((content d).drop off.toNat).take n
  writeAt_bytes : ∀ d off bs n, (disk.writeAt d off bs).2 = .ok n →
    content (disk.writeAt d off bs).1 = overwrite (content d) off.toNat (bs.take n)

variable (header : RequestHeader) (reader : Reader) (writer : Writer)

/-- The length of the data part of a request: the writable bytes except the status byte, or the
readable bytes after the header. -/
def dataLen : ℕ :=
  if header.requestType = virtioBlkTIn then writer.addrs.length - 1 else reader.addrs.length

/-- The count that a request asks for. The subtraction of the status byte wraps. -/
def askedCount : ℕ :=
  if header.requestType = virtioBlkTIn then (BitVec.ofNat 64 writer.availableBytes - 1).toNat
  else reader.availableBytes

def askedSlices : List VolatileSlice :=
  takeBuffers (askedCount header reader writer) 0
    (if header.requestType = virtioBlkTIn then writer.buffer.buffers else reader.buffer.buffers)

/-- The slices with which a request calls the file, if it gets so far. -/
def fileSlices : Option (List VolatileSlice) :=
  if (header.requestType = virtioBlkTIn ∨ header.requestType = virtioBlkTOut) ∧
      askedCount header reader writer % 512 = 0 ∧ askedSlices header reader writer ≠ [] then
    some (askedSlices header reader writer)
  else none

def fileAnswer (disk : Disk D) (header : RequestHeader) (m : M) (d : D)
    (bufs : List VolatileSlice) : Except IoError ℕ :=
  if header.requestType = virtioBlkTIn then (disk.readAt d (header.sector * 512) bufs).2
  else (disk.writeAt d (header.sector * 512) (gather m bufs)).2

/-- The range of the file that a request reads or writes, as offset and length. -/
def fileRange (disk : Disk D) (header : RequestHeader) (reader : Reader) (writer : Writer) (m : M)
    (d : D) : Option (ℕ × ℕ) :=
  match fileSlices header reader writer with
  | none => none
  | some bufs =>
    match fileAnswer disk header m d bufs with
    | .error _ => none
    | .ok n => some ((header.sector * 512).toNat, n)

/-- The request stays in the capacity, and if it is completed it moves exactly its data part, from
or to the bytes of the file that begin with the sector. -/
structure Transfers (disk : Disk D) (content : D → List Byte) (p : DiskProperties)
    (header : RequestHeader) (reader : Reader) (writer : Writer) (m : M) (d : D) : Prop where
  inCapacity : ∀ off n, fileRange disk header reader writer m d = some (off, n) →
    n = 0 ∨ off + n ≤ p.capacity
  range : ∀ n, header.requestType = virtioBlkTIn ∨ header.requestType = virtioBlkTOut →
    (processRequest disk header reader writer m d).result = .ok n →
    n = dataLen header reader writer ∧ (n ≠ 0 →
      fileRange disk header reader writer m d = some (header.sector.toNat * 512, n))
  dataIn : ∀ n, header.requestType = virtioBlkTIn →
    (processRequest disk header reader writer m d).result = .ok n →
    byte (processRequest disk header reader writer m d).mem =
      storeAll (byte m) (writer.addrs.take (writer.addrs.length - 1))
        (((content d).drop (header.sector.toNat * 512)).take n)
  dataOut : ∀ n, header.requestType = virtioBlkTOut →
    (processRequest disk header reader writer m d).result = .ok n →
    content (processRequest disk header reader writer m d).dev =
      overwrite (content d) (header.sector.toNat * 512) (contents m reader.addrs)

/-- How much the file can move at the sector; none if it fails. -/
def quota (gives takes : D → U64 → Option ℕ) (header : RequestHeader) (d : D) : Option ℕ :=
  if header.requestType = virtioBlkTIn then gives d (header.sector * 512)
  else takes d (header.sector * 512)

/-- The data of a transfer of whole sectors lies in the capacity, and the file can move just as much
at the sector, or more, and then the data of a read ends with a slice. -/
def KeepsToData (gives takes : D → U64 → Option ℕ) (p : DiskProperties) (header : RequestHeader)
    (reader : Reader) (writer : Writer) (d : D) : Prop :=
  let len := dataLen header reader writer
  header.requestType = virtioBlkTIn ∨ header.requestType = virtioBlkTOut →
  len % 512 = 0 → len ≠ 0 → ∀ k ∈ quota gives takes header d,
    header.sector.toNat * 512 + len ≤ p.capacity ∧
      (k = len ∨ len < k ∧
        (header.requestType = virtioBlkTIn → Boundary len writer.buffer.buffers))

theorem DiskProperties.capacity_lt (cacheType : CacheType) (diskSize : U64)
    (deviceId : Option (List Byte)) :
    (DiskProperties.new cacheType diskSize deviceId).capacity < 2 ^ 64 := by
  have hshift : (diskSize >>> sectorShift).toNat = diskSize.toNat / 512 := by
    rw [BitVec.toNat_ushiftRight, Nat.shiftRight_eq_div_pow]
    rfl
  show (diskSize >>> sectorShift).toNat * 512 < 2 ^ 64
  omega

section Requests

variable {disk : Disk D} {content : D → List Byte} {gives takes : D → U64 → Option ℕ}
  {header : RequestHeader} {reader : Reader} {writer : Writer} {m : M} {d : D}

/-- What a read or a write comes to: it is refused, has no data, or the file is called once. -/
inductive Outcome (disk : Disk D) (content : D → List Byte) (header : RequestHeader)
    (reader : Reader) (writer : Writer) (m : M) (d : D) : RequestOut M D → Prop
  | refused {e : RequestError} {out : RequestOut M D}
      (slices : fileSlices header reader writer = none) (result : out.result = .error e) :
      Outcome disk content header reader writer m d out
  | empty {out : RequestOut M D} (slices : fileSlices header reader writer = none)
      (len : dataLen header reader writer = 0) (result : out.result = .ok 0)
      (mem : out.mem = m) (dev : out.dev = d) :
      Outcome disk content header reader writer m d out
  | failed {bufs : List VolatileSlice} {err : IoError} {e : RequestError} {out : RequestOut M D}
      (slices : fileSlices header reader writer = some bufs)
      (answer : fileAnswer disk header m d bufs = .error err) (result : out.result = .error e) :
      Outcome disk content header reader writer m d out
  | answered {bufs : List VolatileSlice} {n : ℕ} {out : RequestOut M D}
      (slices : fileSlices header reader writer = some bufs)
      (len : dataLen header reader writer ≠ 0)
      (answer : fileAnswer disk header m d bufs = .ok n) (result : out.result = .ok n)
      (dataIn : header.requestType = virtioBlkTIn → byte out.mem = storeAll (byte m)
        (writer.addrs.take n) (((content d).drop (header.sector * 512).toNat).take n))
      (dataOut : header.requestType = virtioBlkTOut → content out.dev =
        overwrite (content d) (header.sector * 512).toNat ((contents m reader.addrs).take n)) :
      Outcome disk content header reader writer m d out

theorem askedCount_eq (hw : writer.buffer.Counted)
    (h : askedCount header reader writer % 512 = 0 ∨ dataLen header reader writer ≠ 0) :
    askedCount header reader writer = dataLen header reader writer := by
  have hbound : writer.addrs.length < 2 ^ 64 := by
    unfold DescriptorChainConsumer.Counted at hw
    unfold Writer.addrs
    omega
  unfold askedCount dataLen at *
  split_ifs at h ⊢
  · rw [Writer.availableBytes_eq] at h ⊢
    rcases h with h | h <;> bv_omega
  · exact reader.availableBytes_eq

theorem dataLen_eq_zero_iff (header : RequestHeader) (reader : Reader) (hw : writer.buffer.Counted)
    (h : askedCount header reader writer % 512 = 0) :
    askedSlices header reader writer = [] ↔ dataLen header reader writer = 0 := by
  have hcount := askedCount_eq hw (.inl h)
  constructor
  · intro hnil
    have hmin := takeBuffers_eq_nil hnil
    rw [hcount] at hmin
    unfold dataLen at hmin ⊢
    split_ifs at hmin ⊢
    · change min (writer.addrs.length - 1) writer.addrs.length = 0 at hmin
      omega
    · exact (min_self _).symm.trans hmin
  · intro hzero
    unfold askedSlices
    rw [hcount, hzero]
    generalize (if header.requestType = virtioBlkTIn then writer.buffer.buffers
      else reader.buffer.buffers) = l
    cases l <;> rfl

theorem ne_in_of_out (h : header.requestType = virtioBlkTOut) :
    header.requestType ≠ virtioBlkTIn := by
  rw [h]
  decide

theorem fileSlices_of_mod {r : ℕ} (h : askedCount header reader writer % 512 = r) (hr : r ≠ 0) :
    fileSlices header reader writer = none :=
  if_neg fun hc => hr (h.symm.trans hc.2.1)

theorem outcome_out (hd : disk.Backed content gives takes) (hw : writer.buffer.Counted)
    (hr : reader.buffer.Counted) (hout : header.requestType = virtioBlkTOut) : Outcome disk content
    header reader writer m d (processRequest disk header reader writer m d) := by
  have hin := ne_in_of_out hout
  have hasked : askedCount header reader writer = reader.availableBytes := if_neg hin
  have hslices : askedSlices header reader writer = takeBuffers
      reader.availableBytes 0 reader.buffer.buffers := by
    unfold askedSlices
    rw [hasked, if_neg hin]
  unfold processRequest
  rw [if_neg hin]
  simp only [if_pos hout]
  by_cases hmod : reader.availableBytes % 512 = 0
  · have hlen := dataLen_eq_zero_iff header reader hw (hasked ▸ hmod)
    rw [if_neg (not_not.mpr hmod)]
    have hspec := consume_spec hr reader.availableBytes
      ([] : List VolatileSlice)
      (fun bufs => (bufs, (disk.writeAt d (header.sector * 512) (gather m bufs)).2)) (by
        intro bufs n hn
        have hle := hd.writeAt_ok d _ _ n hn
        rwa [gather_eq, length_contents] at hle)
    unfold Reader.readTo
    rcases hspec with ⟨hnil, hrun⟩ | ⟨bufs, hbufs, hne, hrun⟩
    · rw [hrun]
      rw [hslices, hnil] at hlen
      exact .empty (if_neg fun hc => hc.2.2 (hslices.trans hnil)) (hlen.mp rfl) rfl rfl rfl
    have hcall : fileSlices header reader writer = some bufs := by
      unfold fileSlices
      rw [hslices, ← hbufs, if_pos ⟨.inr hout, hasked ▸ hmod, hne⟩]
    rcases hrun with ⟨err, herr, hrun⟩ | ⟨n, hn, hrun⟩
    · rw [hrun]
      exact .failed hcall ((if_neg hin).trans herr) rfl
    · rw [hrun]
      have hemp : bufs.isEmpty = false := by simpa using hne
      refine .answered hcall ?_ ((if_neg hin).trans hn) rfl (fun hi => absurd hi hin) fun _ => ?_
      · rw [Ne, ← hlen, hslices, ← hbufs]
        exact hne
      · simp only [hemp]
        rw [← gather_takeBuffers, ← hbufs]
        exact hd.writeAt_bytes d _ _ n hn
  · rw [if_pos hmod]
    exact .refused (fileSlices_of_mod rfl (hasked ▸ hmod)) rfl

variable [LawfulGuestMemory M]

theorem outcome_in (hd : disk.Backed content gives takes) (hw : writer.Usable m)
    (hin : header.requestType = virtioBlkTIn) : Outcome disk content header reader writer m d
    (processRequest disk header reader writer m d) := by
  have hasked : askedCount header reader writer =
      (BitVec.ofNat 64 writer.availableBytes - 1).toNat := if_pos hin
  have hslices : askedSlices header reader writer = takeBuffers
      (BitVec.ofNat 64 writer.availableBytes - 1).toNat 0 writer.buffer.buffers := by
    unfold askedSlices
    rw [hasked, if_pos hin]
  unfold processRequest
  simp only [if_pos hin]
  by_cases hmod : (BitVec.ofNat 64 writer.availableBytes - 1).toNat % 512 = 0
  · have hlen := dataLen_eq_zero_iff header reader hw.counted (hasked ▸ hmod)
    rw [if_neg (not_not.mpr hmod)]
    rcases Writer.writeFrom_filled (disk.readAt d (header.sector * 512))
        (BitVec.ofNat 64 writer.availableBytes - 1).toNat (hd.readAt_ok d _)
        (hd.readAt_error d _) hw with ⟨hnil, hrun⟩ | ⟨bufs, e, hbufs, hne, hf, hrun⟩
    · rw [hrun]
      rw [hslices, hnil] at hlen
      exact .empty (if_neg fun hc => hc.2.2 (hslices.trans hnil)) (hlen.mp rfl) rfl rfl rfl
    have hcall : fileSlices header reader writer = some bufs := by
      unfold fileSlices
      rw [hslices, ← hbufs, if_pos ⟨.inl hin, hasked ▸ hmod, hne⟩]
    rcases hrun with ⟨err, herr, hrun⟩ | ⟨n, w', hn, hrun, -⟩
    · rw [hrun]
      exact .failed hcall ((if_pos hin).trans herr) rfl
    · rw [hrun]
      refine .answered hcall ?_ ((if_pos hin).trans hn) rfl (fun _ => ?_) fun ho => ?_
      · rw [Ne, ← hlen, hslices, ← hbufs]
        exact hne
      · have hbytes := hf.bytes
        rwa [(hd.readAt_ok d _ bufs n hn).1, hd.readAt_bytes d _ bufs n hn] at hbytes
      · exact absurd hin (ne_in_of_out ho)
  · rw [if_pos hmod]
    exact .refused (fileSlices_of_mod rfl (hasked ▸ hmod)) rfl

variable {head : DescriptorChain} {n : ℕ} {p : DiskProperties}

theorem outcome (hd : disk.Backed content gives takes)
    (hreq : request m head = some (header, reader, writer))
    (hio : header.requestType = virtioBlkTIn ∨ header.requestType = virtioBlkTOut) :
    Outcome disk content header reader writer m d
      (processRequest disk header reader writer m d) := by
  rcases hio with hin | hout
  · exact outcome_in hd (request_writer hreq).1 hin
  · exact outcome_out hd (request_writer hreq).1.counted (request_reader hreq) hout

theorem toNat_offset {sector : U64} (h : sector.toNat * 512 + n < 2 ^ 64) :
    (sector * 512).toNat = sector.toNat * 512 := by
  have hlt : sector.toNat * 512 < 2 ^ 64 := Nat.lt_of_le_of_lt (Nat.le_add_right _ n) h
  have h512 : (512 : U64).toNat = 512 := rfl
  rw [BitVec.toNat_mul, h512, Nat.mod_eq_of_lt hlt]

omit [LawfulGuestMemory M] in
theorem fileRange_eq_some {off : ℕ} :
    fileRange disk header reader writer m d = some (off, n) ↔
      off = (header.sector * 512).toNat ∧ ∃ bufs, fileSlices header reader writer = some bufs ∧
        fileAnswer disk header m d bufs = .ok n := by
  unfold fileRange
  rcases fileSlices header reader writer with _ | bufs
  · simp
  · rcases hans : fileAnswer disk header m d bufs with e | k <;> simp [hans, eq_comm]

/-- Whenever the file is called and answers, it moved all of the data part and no more, and the data
lies in the capacity. -/
def MovesData (disk : Disk D) (p : DiskProperties) (header : RequestHeader) (reader : Reader)
    (writer : Writer) (m : M) (d : D) : Prop :=
  ∀ bufs n, fileSlices header reader writer = some bufs →
    fileAnswer disk header m d bufs = .ok n →
    n = dataLen header reader writer ∧ header.sector.toNat * 512 + n ≤ p.capacity

omit [LawfulGuestMemory M] in
theorem fileAnswer_eq_ok (hd : disk.Backed content gives takes) {bufs : List VolatileSlice} :
    fileAnswer disk header m d bufs = .ok n ↔
      ∃ k ∈ quota gives takes header d, min (addrsOf bufs).length k = n := by
  have hok {r : Except IoError ℕ} : r = .ok n ↔ r.toOption = some n := by
    cases r <;> simp [Except.toOption]
  unfold fileAnswer quota
  rw [hok]
  split_ifs
  · rw [hd.readAt_count, Option.map_eq_some_iff]
    rfl
  · rw [hd.writeAt_count, Option.map_eq_some_iff, gather_eq, length_contents]
    rfl

omit [LawfulGuestMemory M] in
/-- The file is called for whole sectors. -/
theorem fileSlices_eq_some (hw : writer.buffer.Counted) {bufs : List VolatileSlice} :
    fileSlices header reader writer = some bufs ↔
      ((header.requestType = virtioBlkTIn ∨ header.requestType = virtioBlkTOut) ∧
        dataLen header reader writer % 512 = 0 ∧ dataLen header reader writer ≠ 0) ∧
      askedSlices header reader writer = bufs := by
  have hcond : (askedCount header reader writer % 512 = 0 ∧
      askedSlices header reader writer ≠ []) ↔
      dataLen header reader writer % 512 = 0 ∧ dataLen header reader writer ≠ 0 := by
    constructor
    · rintro ⟨hmod, hne⟩
      have hcount : _ = dataLen header reader writer := askedCount_eq hw (.inl hmod)
      exact ⟨hcount ▸ hmod, mt (dataLen_eq_zero_iff header reader hw hmod).mpr hne⟩
    · rintro ⟨hmod, hne⟩
      rw [← askedCount_eq hw (.inr hne)] at hmod
      exact ⟨hmod, mt (dataLen_eq_zero_iff header reader hw hmod).mp hne⟩
  unfold fileSlices
  simp only [hcond, Option.ite_none_right_eq_some, Option.some.injEq]

omit [LawfulGuestMemory M] in
/-- The slices hold the data, and end with it if a slice does. -/
theorem length_askedSlices (hw : writer.buffer.Counted) (hne : dataLen header reader writer ≠ 0) :
    dataLen header reader writer ≤ (addrsOf (askedSlices header reader writer)).length ∧
      ((addrsOf (askedSlices header reader writer)).length ≤ dataLen header reader writer ↔
        (header.requestType = virtioBlkTIn →
          Boundary (dataLen header reader writer) writer.buffer.buffers)) := by
  unfold askedSlices
  rw [askedCount_eq hw (.inr hne)]
  by_cases hin : header.requestType = virtioBlkTIn
  · have hlen : dataLen header reader writer = (addrsOf writer.buffer.buffers).length - 1 :=
      if_pos hin
    have hlong := (takeBuffers_spec (dataLen header reader writer) 0 writer.buffer.buffers).2
    have hends := takeBuffers_le_iff (Nat.zero_le (dataLen header reader writer))
      writer.buffer.buffers
    rw [Nat.sub_zero] at hlong hends
    rw [if_pos hin, hends, or_iff_left (by omega), imp_iff_right hin]
    exact ⟨by omega, Iff.rfl⟩
  · have hlen : dataLen header reader writer = (addrsOf reader.buffer.buffers).length :=
      if_neg hin
    rw [if_neg hin]
    obtain ⟨hpre, hlong⟩ := takeBuffers_spec (dataLen header reader writer) 0 reader.buffer.buffers
    have hle := hpre.length_le
    exact ⟨by omega, iff_of_true (by omega) fun h => absurd h hin⟩

omit [LawfulGuestMemory M] in
theorem keepsToData_iff (hd : disk.Backed content gives takes) (hw : writer.buffer.Counted) :
    KeepsToData gives takes p header reader writer d ↔
      MovesData disk p header reader writer m d := by
  unfold KeepsToData MovesData
  simp only [fileSlices_eq_some hw, fileAnswer_eq_ok hd]
  constructor
  · rintro h _ _ ⟨⟨hio, hmod, hne⟩, rfl⟩ ⟨k, hk, rfl⟩
    obtain ⟨hcap, hcount⟩ := h hio hmod hne k hk
    obtain ⟨hlong, hends⟩ := length_askedSlices hw hne
    have hmin : min (addrsOf (askedSlices header reader writer)).length k =
        dataLen header reader writer := by
      rcases hcount with hcount | ⟨hlt, hbound⟩
      · omega
      · have := hends.mpr hbound
        omega
    exact ⟨hmin, hmin ▸ hcap⟩
  · intro h hio hmod hne k hk
    obtain ⟨hmin, hcap⟩ := h _ _ ⟨⟨hio, hmod, hne⟩, rfl⟩ ⟨k, hk, rfl⟩
    obtain ⟨hlong, hends⟩ := length_askedSlices hw hne
    refine ⟨hmin ▸ hcap, ?_⟩
    by_cases heq : k = dataLen header reader writer
    · exact .inl heq
    · exact .inr ⟨by omega, hends.mp (by omega)⟩

theorem movesData_of_transfers (hd : disk.Backed content gives takes)
    (hreq : request m head = some (header, reader, writer))
    (h : Transfers disk content p header reader writer m d) :
    MovesData disk p header reader writer m d := by
  intro bufs n hslices hans
  have hio : header.requestType = virtioBlkTIn ∨ header.requestType = virtioBlkTOut := by
    by_contra hno
    unfold fileSlices at hslices
    cases (if_neg fun hc => hno hc.1).symm.trans hslices
  have hrange : fileRange disk header reader writer m d = some ((header.sector * 512).toNat, n) :=
    fileRange_eq_some.mpr ⟨rfl, bufs, hslices, hans⟩
  cases outcome (d := d) hd hreq hio with
  | refused hs | empty hs => cases hs.symm.trans hslices
  | failed hs ha _ =>
    cases hs.symm.trans hslices
    cases ha.symm.trans hans
  | answered hs hlen ha hres _ _ =>
    cases hs.symm.trans hslices
    cases ha.symm.trans hans
    obtain ⟨hn, hoff⟩ := h.range _ hio hres
    rw [← hn] at hlen
    have hfull := hoff hlen
    refine ⟨hn, ?_⟩
    rcases h.inCapacity _ _ hfull with hzero | hle
    · exact absurd hzero hlen
    · exact hle

theorem transfers_of_movesData (hp : p.capacity < 2 ^ 64) (hd : disk.Backed content gives takes)
    (hreq : request m head = some (header, reader, writer))
    (h : MovesData disk p header reader writer m d) :
    Transfers disk content p header reader writer m d := by
  have hoff : ∀ bufs n, fileSlices header reader writer = some bufs →
      fileAnswer disk header m d bufs = .ok n →
      (header.sector * 512).toNat = header.sector.toNat * 512 := by
    intro bufs n hs ha
    have hle := (h bufs n hs ha).2
    exact toNat_offset (n := n) (by omega)
  refine ⟨fun off n hrange => ?_, fun n hio hres => ?_, fun n hin hres => ?_,
    fun n hout hres => ?_⟩
  · obtain ⟨rfl, bufs, hs, ha⟩ := fileRange_eq_some.mp hrange
    rw [hoff bufs n hs ha]
    exact .inr (h bufs n hs ha).2
  · cases outcome (d := d) hd hreq hio with
    | refused _ hr | failed _ _ hr => cases hr.symm.trans hres
    | empty hs hlen hr _ _ =>
      cases hr.symm.trans hres
      exact ⟨hlen.symm, fun hne => absurd rfl hne⟩
    | answered hs hlen ha hr _ _ =>
      cases hr.symm.trans hres
      exact ⟨(h _ _ hs ha).1, fun _ =>
        fileRange_eq_some.mpr ⟨(hoff _ _ hs ha).symm, _, hs, ha⟩⟩
  · cases outcome (d := d) hd hreq (.inl hin) with
    | refused _ hr | failed _ _ hr => cases hr.symm.trans hres
    | empty _ hlen hr hmem _ =>
      cases hr.symm.trans hres
      rw [hmem, take_zero, storeAll_nil_right]
    | answered hs _ ha hr hdata _ =>
      cases hr.symm.trans hres
      have hn : n = writer.addrs.length - 1 := (h _ _ hs ha).1.trans (if_pos hin)
      rw [hdata hin, hoff _ _ hs ha, ← hn]
  · have hin := ne_in_of_out hout
    cases outcome (d := d) hd hreq (.inr hout) with
    | refused _ hr | failed _ _ hr => cases hr.symm.trans hres
    | empty _ hlen hr _ hdev =>
      have hnone : reader.addrs = [] := length_eq_zero_iff.mp ((if_neg hin).symm.trans hlen)
      rw [hdev, hnone]
      rfl
    | answered hs _ ha hr _ hdata =>
      cases hr.symm.trans hres
      have hn : n = reader.addrs.length := (h _ _ hs ha).1.trans (if_neg hin)
      rw [hdata hout, hoff _ _ hs ha, take_of_length_le (by rw [length_contents, hn])]

/-- **Data of a block request.** A request stays in the advertised capacity, and moves exactly its
data part from or to its sector when it is completed, if and only if the driver and the file see to
it in the sense of `KeepsToData`. -/
theorem transfers_iff {head : DescriptorChain} (hd : disk.Backed content gives takes)
    (hreq : request m head = some (header, reader, writer)) (cacheType : CacheType)
    (diskSize : U64) (deviceId : Option (List Byte)) :
    Transfers disk content (.new cacheType diskSize deviceId) header reader writer m d ↔
      KeepsToData gives takes (.new cacheType diskSize deviceId) header reader writer d := by
  have hcap := DiskProperties.capacity_lt cacheType diskSize deviceId
  rw [keepsToData_iff (m := m) hd (request_writer hreq).1.counted]
  exact ⟨movesData_of_transfers hd hreq, transfers_of_movesData hcap hd hreq⟩

end Requests

/-! ## An image and four requests -/

/-- The most that one call of Linux moves. -/
def maxRwCount : ℕ := 0x7ffff000

/-- An image file that reads what there is and takes all that one call can move. -/
def imageDisk : Disk (List Byte) where
  readAt file off bufs :=
    let n := min (addrsOf bufs).length (file.length - off.toNat)
    ((file.drop off.toNat).take n, .ok n)
  writeAt file off bs :=
    let n := min bs.length maxRwCount
    (overwrite file off.toNat (bs.take n), .ok n)
  flush file := (file, .ok ())
  syncAll file := (file, .ok ())
  cacheType := .unsafeCache
  imageId := buildDiskImageId none

def imageGives (file : List Byte) (off : U64) : Option ℕ := some (file.length - off.toNat)
def imageTakes (_ : List Byte) (_ : U64) : Option ℕ := some maxRwCount

theorem imageDisk_backed : imageDisk.Backed id imageGives imageTakes where
  readAt_ok file off bufs n h := by
    cases h
    refine ⟨?_, Nat.min_le_left _ _⟩
    show ((file.drop off.toNat).take _).length = _
    rw [length_take, length_drop]
    omega
  readAt_error _ _ _ _ h := by cases h
  writeAt_ok _ _ _ _ h := by
    cases h
    exact Nat.min_le_left _ _
  readAt_count _ _ _ := rfl
  writeAt_count _ _ _ := rfl
  readAt_bytes _ _ _ _ h := by
    cases h
    rfl
  writeAt_bytes _ _ _ _ h := by
    cases h
    rfl

def twoSectors : List Byte := List.replicate 1024 0
def twoSectorsProperties : DiskProperties := .new .unsafeCache 1024 none

def requestMemory (requestType : U32) (sector : U64) (d₁ d₂ : Descriptor) : FlatMemory :=
  (sectorMemory d₁ d₂).put 0x200
    (leBytes 4 requestType.toNat ++ leBytes 4 0 ++ leBytes 8 sector.toNat)

def requestHead : DescriptorChain := ⟨0, 4, 4, 0, 0x200, 16, 1, 1⟩

/-- The read of the first sector moves that sector. -/
theorem transfers_first_sector :
    ∃ header reader writer,
      request (requestMemory 0 0 ⟨0x210, 512, 3, 2⟩ ⟨0x410, 1, 2, 0⟩) requestHead =
        some (header, reader, writer) ∧
      Transfers imageDisk id twoSectorsProperties header reader writer
        (requestMemory 0 0 ⟨0x210, 512, 3, 2⟩ ⟨0x410, 1, 2, 0⟩) twoSectors := by
  have hreq : request (requestMemory 0 0 ⟨0x210, 512, 3, 2⟩ ⟨0x410, 1, 2, 0⟩) requestHead =
      some (⟨0, 0⟩, ⟨⟨[], 16⟩⟩, ⟨⟨[⟨0x210, 512⟩, ⟨0x410, 1⟩], 0⟩⟩) := by decide +kernel
  refine ⟨_, _, _, hreq, (transfers_iff imageDisk_backed hreq _ _ _).mpr ?_⟩
  rintro - - - k ⟨⟩
  exact ⟨by decide +kernel, .inr ⟨by decide +kernel, fun _ => by decide +kernel⟩⟩

/-- The request is accepted, but leaves the capacity or moves other bytes than its data. -/
def GoesAstray (m : FlatMemory) : Prop :=
  ∃ header reader writer, request m requestHead = some (header, reader, writer) ∧
    ¬ Transfers imageDisk id twoSectorsProperties header reader writer m twoSectors

theorem goesAstray_of_answer {m : FlatMemory} (header : RequestHeader) (reader : Reader)
    (writer : Writer) (bufs : List VolatileSlice) (n : ℕ)
    (hreq : request m requestHead = some (header, reader, writer))
    (hslices : fileSlices header reader writer = some bufs)
    (hans : fileAnswer imageDisk header m twoSectors bufs = .ok n)
    (hno : n ≠ dataLen header reader writer ∨
      twoSectorsProperties.capacity < header.sector.toNat * 512 + n) : GoesAstray m := by
  refine ⟨header, reader, writer, hreq, fun h => ?_⟩
  obtain ⟨hn, hle⟩ := movesData_of_transfers imageDisk_backed hreq h bufs n hslices hans
  omega

/-- A read into one buffer for data and status fills the status byte; a write to the fifth sector
makes the file longer; and a write to sector `2 ^ 55` goes to the first one. -/
theorem requests_go_astray :
    GoesAstray (requestMemory 0 0 ⟨0x210, 513, 2, 0⟩ ⟨0, 0, 0, 0⟩) ∧
    GoesAstray (requestMemory 1 4 ⟨0x210, 512, 1, 2⟩ ⟨0x410, 1, 2, 0⟩) ∧
    GoesAstray (requestMemory 1 0x80000000000000 ⟨0x210, 512, 1, 2⟩ ⟨0x410, 1, 2, 0⟩) := by
  refine ⟨?_, ?_, ?_⟩
  · exact goesAstray_of_answer ⟨0, 0⟩ ⟨⟨[], 16⟩⟩ ⟨⟨[⟨0x210, 513⟩], 0⟩⟩ [⟨0x210, 513⟩] 513
      (by decide +kernel) (by decide +kernel) (by decide +kernel) (.inl (by decide +kernel))
  · exact goesAstray_of_answer ⟨1, 4⟩ ⟨⟨[⟨0x210, 512⟩], 16⟩⟩ ⟨⟨[⟨0x410, 1⟩], 0⟩⟩
      [⟨0x210, 512⟩] 512 (by decide +kernel) (by decide +kernel) (by decide +kernel)
      (.inr (by decide +kernel))
  · exact goesAstray_of_answer ⟨1, 0x80000000000000⟩ ⟨⟨[⟨0x210, 512⟩], 16⟩⟩ ⟨⟨[⟨0x410, 1⟩], 0⟩⟩
      [⟨0x210, 512⟩] 512 (by decide +kernel) (by decide +kernel) (by decide +kernel)
      (.inr (by decide +kernel))

end Shelter.Virtio.BlockWorker
