import Shelter.Memory.Overwrite
import Shelter.Virtio.Queue

/-!
# Vsock packets

A vsock packet is a wrapper over a descriptor chain: the head descriptor holds the 44 bytes of
the header, and a data buffer follows in the same or in the next descriptor. The wrapper points
into guest memory, so a getter reads and a setter writes the memory in place; nothing is copied.

The header is ten little-endian fields. `HdrField` lists them with their offsets, `get` and `set`
access one of them, and the accessors of the source are these two at a field.
`fromRxVirtqHead_ok` and `fromTxVirtqHead_ok` say what the two constructors have checked.
-/

open Bytes

namespace Shelter.Vsock

open Virtio LawfulGuestMemory

variable {M : Type} [GuestMemory M]

/-! ## Constants -/

def vsockPktHdrSize : ℕ := 44

def maxPktBufSize : U32 := 64 * 1024

def connTxBufSize : U32 := 8 * 1024 * 1024

def sockStream : U16 := 1
def sockDgram : U16 := 2

def tsiProxyPort : U32 := 620
def tsiProxyCreate : U32 := 1024
def tsiConnect : U32 := 1025
def tsiGetname : U32 := 1026
def tsiSendtoAddr : U32 := 1027
def tsiSendtoData : U32 := 1028
def tsiListen : U32 := 1029
def tsiAccept : U32 := 1030
def tsiProxyRelease : U32 := 1031

def vsockOpRequest : U16 := 1
def vsockOpResponse : U16 := 2
def vsockOpRst : U16 := 3
def vsockOpShutdown : U16 := 4
def vsockOpRw : U16 := 5
def vsockOpCreditUpdate : U16 := 6
def vsockOpCreditRequest : U16 := 7

def vsockFlagsShutdownRcv : U32 := 1
def vsockFlagsShutdownSend : U32 := 2

def vsockTypeStream : U16 := 1
def vsockTypeDgram : U16 := 3

def vsockHostCid : U64 := 2

/-- The errors of `mod.rs` that the modelled functions return. -/
inductive VsockError
  | bufDescTooSmall
  | bufDescMissing
  | guestMemoryMmap
  | guestMemoryBounds
  | hdrDescTooSmall (len : U32)
  | invalidPktLen (len : U32)
  | noData
  | unreadableDescriptor
  | unwritableDescriptor
  deriving DecidableEq, Repr

/-! ## The wrapper -/

inductive HdrField
  | srcCid | dstCid | srcPort | dstPort | len | type | op | flags | bufAlloc | fwdCnt
  deriving DecidableEq, Repr

namespace HdrField

def off : HdrField → ℕ
  | srcCid => 0
  | dstCid => 8
  | srcPort => 16
  | dstPort => 20
  | len => 24
  | type => 28
  | op => 30
  | flags => 32
  | bufAlloc => 36
  | fwdCnt => 40

def size : HdrField → ℕ
  | srcCid | dstCid => 8
  | type | op => 2
  | srcPort | dstPort | len | flags | bufAlloc | fwdCnt => 4

theorem end_le (f : HdrField) : f.off + f.size ≤ vsockPktHdrSize := by
  cases f <;> decide

theorem disjoint {f g : HdrField} (h : f ≠ g) :
    f.off + f.size ≤ g.off ∨ g.off + g.size ≤ f.off := by
  revert h
  cases f <;> cases g <;> decide

end HdrField

/-- A packet, by the addresses of its header and of its data buffer. -/
structure VsockPacket where
  hdr : ℕ
  buf : Option ℕ
  bufSize : ℕ
  deriving DecidableEq, Repr

/-- `mem.get_slice`: the slice starts in a region and does not leave it. -/
def getHostAddress (m : M) (addr size : ℕ) : Option ℕ :=
  match findRegion m addr with
  | some r => if addr + size ≤ r.start + r.len then some addr else none
  | none => none

namespace VsockPacket

variable (pkt : VsockPacket)

def get (f : HdrField) (m : M) : ℕ :=
  leNat (bytesAt m (pkt.hdr + f.off) f.size)

/-- The memory after a header field was set. The bounds were checked when the packet was made. -/
def set (f : HdrField) (v : ℕ) (m : M) : M :=
  (writeSlice m (pkt.hdr + f.off) (leBytes f.size v)).1

variable (m : M)

def srcCid : U64 := BitVec.ofNat 64 (pkt.get .srcCid m)
def setSrcCid (cid : U64) (m : M) : M := pkt.set .srcCid cid.toNat m

def dstCid : U64 := BitVec.ofNat 64 (pkt.get .dstCid m)
def setDstCid (cid : U64) (m : M) : M := pkt.set .dstCid cid.toNat m

def srcPort : U32 := BitVec.ofNat 32 (pkt.get .srcPort m)
def setSrcPort (port : U32) (m : M) : M := pkt.set .srcPort port.toNat m

def dstPort : U32 := BitVec.ofNat 32 (pkt.get .dstPort m)
def setDstPort (port : U32) (m : M) : M := pkt.set .dstPort port.toNat m

def len : U32 := BitVec.ofNat 32 (pkt.get .len m)
def setLen (len : U32) (m : M) : M := pkt.set .len len.toNat m

def type : U16 := BitVec.ofNat 16 (pkt.get .type m)
def setType (type : U16) (m : M) : M := pkt.set .type type.toNat m

def op : U16 := BitVec.ofNat 16 (pkt.get .op m)
def setOp (op : U16) (m : M) : M := pkt.set .op op.toNat m

def flags : U32 := BitVec.ofNat 32 (pkt.get .flags m)
def setFlags (flags : U32) (m : M) : M := pkt.set .flags flags.toNat m

def bufAlloc : U32 := BitVec.ofNat 32 (pkt.get .bufAlloc m)
def setBufAlloc (n : U32) (m : M) : M := pkt.set .bufAlloc n.toNat m

def fwdCnt : U32 := BitVec.ofNat 32 (pkt.get .fwdCnt m)
def setFwdCnt (n : U32) (m : M) : M := pkt.set .fwdCnt n.toNat m

def hdrBytes : List Byte := bytesAt m pkt.hdr vsockPktHdrSize

/-- The bytes of the data buffer, all `bufSize` of them. -/
def bufBytes : Option (List Byte) :=
  pkt.buf.map fun a => bytesAt m a pkt.bufSize

/-- The length that goes to the used ring: `pkt.hdr().len() as u32 + pkt.len()`. -/
def usedLen : U32 := BitVec.ofNat 32 vsockPktHdrSize + pkt.len m

/-- Create the packet wrapper from a TX virtq chain head. The buffer is the whole data
descriptor, which may be longer than the length in the header. -/
def fromTxVirtqHead (head : DescriptorChain) (m : M) : Except VsockError VsockPacket :=
  if head.isWriteOnly then .error .unreadableDescriptor
  else if head.len.toNat < vsockPktHdrSize then .error (.hdrDescTooSmall head.len)
  else
    match getHostAddress m head.addr.toNat vsockPktHdrSize with
    | none => .error .guestMemoryMmap
    | some hdr =>
      let pkt : VsockPacket := ⟨hdr, none, 0⟩
      if pkt.len m = 0 then .ok pkt
      else if maxPktBufSize < pkt.len m then .error (.invalidPktLen (pkt.len m))
      else
        match head.nextDescriptor m with
        | none => .error .bufDescMissing
        | some bufDesc =>
          if bufDesc.isWriteOnly then .error .unreadableDescriptor
          else if bufDesc.len < pkt.len m then .error .bufDescTooSmall
          else
            match getHostAddress m bufDesc.addr.toNat bufDesc.len.toNat with
            | none => .error .guestMemoryMmap
            | some buf => .ok ⟨hdr, some buf, bufDesc.len.toNat⟩

/-- Create the packet wrapper from an RX virtq chain head. A driver may put header and data in
one descriptor. -/
def fromRxVirtqHead (head : DescriptorChain) (m : M) : Except VsockError VsockPacket :=
  if !head.isWriteOnly then .error .unwritableDescriptor
  else if head.len.toNat < vsockPktHdrSize then .error (.hdrDescTooSmall head.len)
  else
    match getHostAddress m head.addr.toNat vsockPktHdrSize with
    | none => .error .guestMemoryMmap
    | some hdr =>
      if !head.hasNext && decide (vsockPktHdrSize < head.len.toNat) then
        match checkedAdd head.addr.toNat vsockPktHdrSize with
        | none => .error .guestMemoryBounds
        | some bufAddr =>
          match getHostAddress m bufAddr (head.len.toNat - vsockPktHdrSize) with
          | none => .error .guestMemoryMmap
          | some buf => .ok ⟨hdr, some buf, head.len.toNat - vsockPktHdrSize⟩
      else
        match head.nextDescriptor m with
        | none => .error .bufDescMissing
        | some bufDesc =>
          match getHostAddress m bufDesc.addr.toNat bufDesc.len.toNat with
          | none => .error .guestMemoryMmap
          | some buf => .ok ⟨hdr, some buf, bufDesc.len.toNat⟩

end VsockPacket

/-! ## The TSI messages in the data buffer -/

structure Ipv4Addr where
  octets : Vector Byte 4
  deriving DecidableEq, Repr

structure TsiProxyCreate where
  peerPort : U32
  type : U16
  deriving DecidableEq, Repr

structure TsiConnectReq where
  peerPort : U32
  addr : Ipv4Addr
  port : U16
  deriving DecidableEq, Repr

structure TsiGetnameReq where
  peerPort : U32
  localPort : U32
  peer : U32
  deriving DecidableEq, Repr

structure TsiGetnameRsp where
  addr : Ipv4Addr
  port : U16
  result : U32
  deriving DecidableEq, Repr

structure TsiSendtoAddr where
  peerPort : U32
  addr : Ipv4Addr
  port : U16
  deriving DecidableEq, Repr

structure TsiListenReq where
  peerPort : U32
  addr : Ipv4Addr
  port : U16
  vmPort : U32
  backlog : U32
  deriving DecidableEq, Repr

structure TsiAcceptReq where
  peerPort : U32
  flags : U32
  deriving DecidableEq, Repr

structure TsiReleaseReq where
  peerPort : U32
  localPort : U32
  deriving DecidableEq, Repr

namespace VsockPacket

variable (pkt : VsockPacket)

/-- The little-endian word of `n` bytes at an offset of the buffer. -/
def bufLe (w off n : ℕ) (m : M) : BitVec w :=
  BitVec.ofNat w (leNat (bytesAt m (pkt.buf.getD 0 + off) n))

def bufPort (off : ℕ) (m : M) : U16 :=
  BitVec.ofNat 16 (leNat (bytesAt m (pkt.buf.getD 0 + off) 2).reverse)

def bufAddr (off : ℕ) (m : M) : Ipv4Addr :=
  ⟨Vector.ofFn fun i => byte m (pkt.buf.getD 0 + off + i.val)⟩

variable (m : M)

def readProxyCreate : Option TsiProxyCreate :=
  if 6 ≤ pkt.bufSize then some ⟨pkt.bufLe 32 0 4 m, pkt.bufLe 16 4 2 m⟩ else none

def readConnectReq : Option TsiConnectReq :=
  if 10 ≤ pkt.bufSize then some ⟨pkt.bufLe 32 0 4 m, pkt.bufAddr 4 m, pkt.bufPort 8 m⟩ else none

def readGetnameReq : Option TsiGetnameReq :=
  if 12 ≤ pkt.bufSize then some ⟨pkt.bufLe 32 0 4 m, pkt.bufLe 32 4 4 m, pkt.bufLe 32 8 4 m⟩
  else none

def readSendtoAddr : Option TsiSendtoAddr :=
  if 10 ≤ pkt.bufSize then some ⟨pkt.bufLe 32 0 4 m, pkt.bufAddr 4 m, pkt.bufPort 8 m⟩ else none

def readListenReq : Option TsiListenReq :=
  if 18 ≤ pkt.bufSize then
    some ⟨pkt.bufLe 32 0 4 m, pkt.bufAddr 4 m, pkt.bufPort 8 m, pkt.bufLe 32 10 4 m,
      pkt.bufLe 32 14 4 m⟩
  else none

def readAcceptReq : Option TsiAcceptReq :=
  if 8 ≤ pkt.bufSize then some ⟨pkt.bufLe 32 0 4 m, pkt.bufLe 32 4 4 m⟩ else none

def readReleaseReq : Option TsiReleaseReq :=
  if 8 ≤ pkt.bufSize then some ⟨pkt.bufLe 32 0 4 m, pkt.bufLe 32 4 4 m⟩ else none

/-- Store bytes at an offset of the buffer, if there is a buffer of at least `room` bytes. -/
def writeBuf (room off : ℕ) (bs : List Byte) (m : M) : M :=
  if room ≤ pkt.bufSize then
    match pkt.buf with
    | some a => (writeSlice m (a + off) bs).1
    | none => m
  else m

def writeConnectRsp (result : U32) (m : M) : M :=
  pkt.writeBuf 4 0 (leBytes 4 result.toNat) m

def writeListenRsp (result : U32) (m : M) : M :=
  pkt.writeBuf 4 0 (leBytes 4 result.toNat) m

def writeAcceptRsp (result : U32) (m : M) : M :=
  pkt.writeBuf 4 0 (leBytes 4 result.toNat) m

def writeGetnameRsp (rsp : TsiGetnameRsp) (m : M) : M :=
  m |> pkt.writeBuf 10 0 rsp.addr.octets.toList
    |> pkt.writeBuf 10 4 (leBytes 2 rsp.port.toNat).reverse
    |> pkt.writeBuf 10 6 (leBytes 4 rsp.result.toNat)

def writeTimeSync (time : U64) (m : M) : M :=
  pkt.writeBuf 8 0 (leBytes 8 time.toNat) m

/-! ## What the constructors have checked -/

/-- The header and the data buffer lie in mapped memory. -/
structure InMemory (pkt : VsockPacket) (m : M) : Prop where
  hdr : Mapped m pkt.hdr vsockPktHdrSize
  buf : ∀ a ∈ pkt.buf, Mapped m a pkt.bufSize

variable {pkt : VsockPacket} {m : M} {head : DescriptorChain}

theorem InMemory.congr {m' : M} (h : pkt.InMemory m) (hl : SameLayout m m') : pkt.InMemory m' :=
  ⟨hl.mapped_iff.mpr h.hdr, fun a ha => hl.mapped_iff.mpr (h.buf a ha)⟩

theorem getHostAddress_some [LawfulGuestMemory M] {a n b : ℕ} (h : getHostAddress m a n = some b) :
    b = a ∧ Mapped m a n := by
  unfold getHostAddress at h
  split at h
  · rename_i r hr
    split_ifs at h with hle
    have hin := find_contains hr
    refine ⟨(Option.some.inj h).symm, fun i hi => addressInRange_iff.mpr ⟨r, ?_⟩⟩
    exact find_of_contains hr ⟨by have := hin.1; omega, by omega⟩
  · simp at h

theorem fromRxVirtqHead_layout [LawfulGuestMemory M] (h : fromRxVirtqHead head m = .ok pkt) :
    head.isWriteOnly = true ∧ vsockPktHdrSize ≤ head.len.toNat ∧
      Mapped m head.addr.toNat vsockPktHdrSize ∧ ∃ b n, pkt = ⟨head.addr.toNat, some b, n⟩ ∧
      Mapped m b n ∧ n < 2 ^ 32 ∧ ((head.hasNext = false ∧ b = head.addr.toNat + vsockPktHdrSize ∧
        vsockPktHdrSize + n = head.len.toNat) ∨
      ∃ d, head.nextDescriptor m = some d ∧ b = d.addr.toNat ∧ n = d.len.toNat) := by
  unfold fromRxVirtqHead at h
  split_ifs at h with hw hlen hone
  all_goals
    split at h
    · simp at h
    rename_i hdr hhdr
    obtain ⟨rfl, hmap⟩ := getHostAddress_some hhdr
    split at h
    · simp at h
    rename_i b hb
    split at h
    · simp at h
    rename_i buf hbuf
    obtain ⟨rfl, hbmap⟩ := getHostAddress_some hbuf
    cases h
    refine ⟨by simpa using hw, by omega, hmap, _, _, rfl, hbmap, ?_⟩
  · have hlt := head.len.isLt
    simp only [Bool.and_eq_true, Bool.not_eq_true', decide_eq_true_eq] at hone
    obtain ⟨_, ⟨⟩⟩ := Option.ite_none_right_eq_some.mp hb
    exact ⟨by omega, .inl ⟨hone.1, rfl, by omega⟩⟩
  · exact ⟨b.len.isLt, .inr ⟨b, hb, rfl, rfl⟩⟩

theorem fromRxVirtqHead_ok [LawfulGuestMemory M] (h : fromRxVirtqHead head m = .ok pkt) :
    pkt.InMemory m ∧ pkt.hdr = head.addr.toNat ∧ vsockPktHdrSize ≤ head.len.toNat ∧
      (∃ a, pkt.buf = some a) ∧ pkt.bufSize < 2 ^ 32 := by
  obtain ⟨_, hlen, hmap, b, n, rfl, hbmap, hn, _⟩ := fromRxVirtqHead_layout h
  refine ⟨⟨hmap, ?_⟩, rfl, hlen, ⟨b, rfl⟩, hn⟩
  rintro a ⟨⟩
  exact hbmap

/-- A TX packet has its header at the head descriptor. If the header announces data, the buffer
is the next descriptor, which holds at least that much. -/
theorem fromTxVirtqHead_ok [LawfulGuestMemory M] (h : fromTxVirtqHead head m = .ok pkt) :
    pkt.InMemory m ∧ pkt.hdr = head.addr.toNat ∧
      ((pkt.len m = 0 ∧ pkt.buf = none) ∨
        (pkt.len m ≠ 0 ∧ pkt.len m ≤ maxPktBufSize ∧ ∃ d, head.nextDescriptor m = some d ∧
          pkt.buf = some d.addr.toNat ∧ pkt.bufSize = d.len.toNat ∧
          (pkt.len m).toNat ≤ pkt.bufSize)) := by
  unfold fromTxVirtqHead at h
  split_ifs at h with _ hlen
  split at h
  · simp at h
  rename_i hdr hhdr
  obtain ⟨rfl, hmap⟩ := getHostAddress_some hhdr
  dsimp only at h
  split_ifs at h with hzero hmax
  · cases h
    exact ⟨⟨hmap, by rintro a ⟨⟩⟩, rfl, .inl ⟨hzero, rfl⟩⟩
  · split at h
    · simp at h
    rename_i d hd
    split_ifs at h with _ hsmall
    split at h
    · simp at h
    rename_i buf hbuf
    obtain ⟨rfl, hbmap⟩ := getHostAddress_some hbuf
    cases h
    refine ⟨⟨hmap, ?_⟩, rfl, .inr ⟨hzero, BitVec.not_lt.mp hmax, d, hd, rfl, rfl, ?_⟩⟩
    · rintro a ⟨⟩
      exact hbmap
    · exact BitVec.le_def.mp (BitVec.not_lt.mp hsmall)

/-! ## Setting a field -/

section Set

variable {pkt : VsockPacket} {m : M}

theorem field_mapped (h : pkt.InMemory m) (f : HdrField) (v : ℕ) :
    Mapped m (pkt.hdr + f.off) (leBytes f.size v).length := by
  rw [length_leBytes]
  exact h.hdr.mono (Nat.le_add_right _ _) (by have := f.end_le; omega)

theorem get_congr (h : SameOn pkt.hdr vsockPktHdrSize m m') (f : HdrField) :
    pkt.get f m' = pkt.get f m := by
  unfold get
  rw [bytesAt_congr (h.mono (Nat.le_add_right _ _) (by have := f.end_le; omega))]

variable [LawfulGuestMemory M]

def fieldRange (pkt : VsockPacket) (f : HdrField) : ℕ × ℕ := (pkt.hdr + f.off, f.size)

/-- The `n` bytes at an offset of the buffer, if it has room. -/
def bufRange (pkt : VsockPacket) (room off n : ℕ) : List (ℕ × ℕ) :=
  if room ≤ pkt.bufSize then (pkt.buf.map fun a => (a + off, n)).toList else []

theorem overwrites_set (h : pkt.InMemory m) (f : HdrField) (v : ℕ) :
    Overwrites m [pkt.fieldRange f] (pkt.set f v) := by
  have hw := Overwrites.write (field_mapped h f v)
  rwa [length_leBytes] at hw

theorem overwrites_writeBuf (h : pkt.InMemory m) {room off : ℕ} {bs : List Byte}
    (hroom : off + bs.length ≤ room) :
    Overwrites m (pkt.bufRange room off bs.length) (pkt.writeBuf room off bs) := by
  unfold bufRange writeBuf
  split_ifs with hr
  · cases hb : pkt.buf with
    | none => exact Overwrites.id m
    | some a => exact Overwrites.write ((h.buf a hb).mono (by omega) (by omega))
  · exact Overwrites.id m

theorem get_set (h : pkt.InMemory m) (f : HdrField) (v : ℕ) :
    pkt.get f (pkt.set f v m) = v % 256 ^ f.size := by
  have hb := (writeSlice_wrote (field_mapped h f v)).bytes
  rw [length_leBytes] at hb
  unfold get set
  rw [hb, leNat_leBytes]

theorem get_set_ne {f g : HdrField} (hne : f ≠ g) (v : ℕ) :
    pkt.get g (pkt.set f v m) = pkt.get g m := by
  have hd : Apart (pkt.hdr + f.off) f.size (pkt.hdr + g.off) g.size :=
    apart_of_le (by have := HdrField.disjoint hne; omega)
  have hf := writeSlice_sameOutside m (pkt.hdr + f.off) (leBytes f.size v)
  rw [length_leBytes] at hf
  unfold get set
  rw [bytesAt_congr (hf.sameOn hd)]

variable {m' : M}

structure OnlyHdr (pkt : VsockPacket) (m m' : M) : Prop where
  layout : SameLayout m m'
  frame : SameOutside (Range pkt.hdr vsockPktHdrSize) m m'

theorem OnlyHdr.set (h : pkt.OnlyHdr m m') (f : HdrField) (v : ℕ) :
    pkt.OnlyHdr m (pkt.set f v m') where
  layout := h.layout.trans fun x => writeSlice_find ..
  frame := by
    refine h.frame.trans ((writeSlice_sameOutside m' _ _).mono fun x hx => ?_)
    rw [length_leBytes] at hx
    exact hx.mono (Nat.le_add_right _ _) (by have := f.end_le; omega)

/-- The header and the buffer miss `[a, a + n)`. -/
@[mk_iff] structure ApartFrom (pkt : VsockPacket) (a n : ℕ) : Prop where
  hdr : Apart pkt.hdr vsockPktHdrSize a n
  buf : ∀ b ∈ pkt.buf, Apart b pkt.bufSize a n

instance (pkt : VsockPacket) (a n : ℕ) : Decidable (pkt.ApartFrom a n) :=
  decidable_of_iff' _ (apartFrom_iff ..)

def Bytes (pkt : VsockPacket) (x : ℕ) : Prop :=
  Range pkt.hdr vsockPktHdrSize x ∨ ∃ a ∈ pkt.buf, Range a pkt.bufSize x

structure Within (pkt : VsockPacket) (m m' : M) : Prop where
  layout : SameLayout m m'
  frame : SameOutside pkt.Bytes m m'

namespace Within

omit [LawfulGuestMemory M] in
theorem refl (pkt : VsockPacket) (m : M) : pkt.Within m m := ⟨.refl m, .refl _ m⟩

variable {a : ℕ} {bs : List Byte}

omit [LawfulGuestMemory M] in
theorem sameOn {n : ℕ} (h : pkt.Within m m') (ha : pkt.ApartFrom a n) : SameOn a n m m' := by
  refine fun x hx => h.frame x ?_
  rintro (hb | ⟨b, hb, hbx⟩)
  · exact ha.hdr x hb hx
  · exact ha.buf b hb x hbx hx

theorem store (h : pkt.Within m m') (hin : ∀ x, Range a bs.length x → pkt.Bytes x) :
    pkt.Within m (writeSlice m' a bs).1 where
  layout := h.layout.trans fun _ => writeSlice_find ..
  frame := h.frame.trans ((writeSlice_sameOutside m' a bs).mono hin)

theorem set (h : pkt.Within m m') (f : HdrField) (v : ℕ) : pkt.Within m (pkt.set f v m') := by
  refine h.store fun x hx => .inl ?_
  rw [length_leBytes] at hx
  exact hx.mono (Nat.le_add_right _ _) (by have := f.end_le; omega)

theorem writeBuf (h : pkt.Within m m') {room off : ℕ} (hroom : off + bs.length ≤ room) :
    pkt.Within m (pkt.writeBuf room off bs m') := by
  unfold VsockPacket.writeBuf
  split_ifs with hr
  · cases hb : pkt.buf with
    | none => exact h
    | some a => exact h.store fun x hx => .inr ⟨a, hb, hx.mono (by omega) (by omega)⟩
  · exact h

end Within

end Set

end VsockPacket

end Shelter.Vsock
