import Shelter.Vsock.Packet

/-!
# Control messages

`MuxerRx` is a control message of the device for the guest. `rxToPkt` writes one into a packet,
in place. `pushPacket` puts it in the next RX buffer, or, if the guest has supplied none, in the
queue of the muxer, `MuxerRxQ`, from which `process_stream_rx` takes it later.

The setters that `rxToPkt` calls depend on the kind of the message. `rxToPkt_overwrites` lists
the ranges that are written, and `rxToPkt_deterministic_iff` what follows: the header of a reset
is determined by the message, and that of any other message still holds bytes the guest left in
the buffer.
-/

open Bytes

namespace Shelter.Vsock

open Virtio List

variable {M : Type} [GuestMemory M]

inductive MuxerRx
  | reset (localPort peerPort : U32)
  | getnameResponse (localPort peerPort : U32) (data : TsiGetnameRsp)
  | connResponse (localPort peerPort : U32) (result : U32)
  | opRequest (localPort peerPort : U32)
  | opResponse (localPort peerPort : U32)
  | creditRequest (localPort peerPort : U32) (fwdCnt : U32)
  | creditUpdate (localPort peerPort : U32) (fwdCnt : U32)
  | listenResponse (localPort peerPort : U32) (result : U32)
  | acceptResponse (localPort peerPort : U32) (result : U32)
  deriving DecidableEq, Repr

def muxerRxqSize : ℕ := 256

structure MuxerRxQ where
  q : List MuxerRx
  synced : Bool
  deriving DecidableEq, Repr

namespace MuxerRxQ

def new : MuxerRxQ := ⟨[], true⟩

variable (r : MuxerRxQ)

def isEmpty : Bool := r.q.length == 0

def isFull : Bool := r.q.length == muxerRxqSize

/-- Push a new RX item to the queue; `false` if there was no room left. -/
def push (rx : MuxerRx) : Bool × MuxerRxQ :=
  if r.synced && !r.isFull then (true, { r with q := r.q ++ [rx] }) else (false, r)

def pop : Option MuxerRx × MuxerRxQ :=
  match r.q with
  | rx :: rest => (some rx, { r with q := rest })
  | [] => (none, r)

end MuxerRxQ

/-- Write a message into a packet. An RX packet has a data buffer, so the `unwrap` of the source
does not fail and `bufSize` is the length of the buffer. -/
def rxToPkt (cid : U64) (rx : MuxerRx) (pkt : VsockPacket) (m : M) : M :=
  match rx with
  | .reset localPort peerPort =>
    m |> pkt.setOp vsockOpRst |> pkt.setSrcCid vsockHostCid |> pkt.setDstCid cid
      |> pkt.setSrcPort localPort |> pkt.setDstPort peerPort |> pkt.setLen 0
      |> pkt.setType vsockTypeStream |> pkt.setFlags 0 |> pkt.setBufAlloc 0 |> pkt.setFwdCnt 0
  | .connResponse localPort peerPort result =>
    m |> pkt.setOp vsockOpRw |> pkt.setSrcCid vsockHostCid |> pkt.setDstCid cid
      |> pkt.setSrcPort localPort |> pkt.setDstPort peerPort |> pkt.setType vsockTypeDgram
      |> pkt.writeConnectRsp result |> pkt.setLen (BitVec.ofNat 32 pkt.bufSize)
  | .opRequest localPort peerPort =>
    m |> pkt.setOp vsockOpRequest |> pkt.setSrcCid vsockHostCid |> pkt.setDstCid cid
      |> pkt.setSrcPort localPort |> pkt.setDstPort peerPort |> pkt.setType vsockTypeStream
      |> pkt.setBufAlloc connTxBufSize |> pkt.setLen 0
  | .opResponse localPort peerPort =>
    m |> pkt.setOp vsockOpResponse |> pkt.setSrcCid vsockHostCid |> pkt.setDstCid cid
      |> pkt.setSrcPort localPort |> pkt.setDstPort peerPort |> pkt.setType vsockTypeStream
      |> pkt.setBufAlloc connTxBufSize |> pkt.setLen 0
  | .getnameResponse localPort peerPort data =>
    m |> pkt.setOp vsockOpRw |> pkt.setSrcCid vsockHostCid |> pkt.setDstCid cid
      |> pkt.setSrcPort localPort |> pkt.setDstPort peerPort |> pkt.setType vsockTypeDgram
      |> pkt.writeGetnameRsp data |> pkt.setLen (BitVec.ofNat 32 pkt.bufSize)
  | .creditRequest localPort peerPort fwdCnt =>
    m |> pkt.setOp vsockOpCreditRequest |> pkt.setSrcCid vsockHostCid |> pkt.setDstCid cid
      |> pkt.setSrcPort localPort |> pkt.setDstPort peerPort |> pkt.setType vsockTypeStream
      |> pkt.setBufAlloc connTxBufSize |> pkt.setFwdCnt fwdCnt
  | .creditUpdate localPort peerPort fwdCnt =>
    m |> pkt.setOp vsockOpCreditUpdate |> pkt.setSrcCid vsockHostCid |> pkt.setDstCid cid
      |> pkt.setSrcPort localPort |> pkt.setDstPort peerPort |> pkt.setType vsockTypeStream
      |> pkt.setBufAlloc connTxBufSize |> pkt.setFwdCnt fwdCnt
  | .listenResponse localPort peerPort result =>
    m |> pkt.setOp vsockOpRw |> pkt.setSrcCid vsockHostCid |> pkt.setDstCid cid
      |> pkt.setSrcPort localPort |> pkt.setDstPort peerPort |> pkt.setType vsockTypeDgram
      |> pkt.writeListenRsp result |> pkt.setLen (BitVec.ofNat 32 pkt.bufSize)
  | .acceptResponse localPort peerPort result =>
    m |> pkt.setOp vsockOpRw |> pkt.setSrcCid vsockHostCid |> pkt.setDstCid cid
      |> pkt.setSrcPort localPort |> pkt.setDstPort peerPort |> pkt.setType vsockTypeDgram
      |> pkt.writeAcceptRsp result |> pkt.setLen (BitVec.ofNat 32 pkt.bufSize)

/-! ## Pushing a message -/

/-- The RX virtqueue in guest memory and the muxer RX queue, each behind its own lock. -/
structure RxSide (M : Type) where
  queue : Queue
  mem : M
  rxq : MuxerRxQ

/-- `push_packet` with a head in hand. A chain that is no RX packet is neither used nor undone,
and the message is gone; the result says whether it was placed. -/
def pushTo (cid : U64) (rx : MuxerRx) (head : DescriptorChain) (queue : Queue) (mem : M) :
    Bool × Queue × M :=
  match VsockPacket.fromRxVirtqHead head mem with
  | .ok pkt =>
    let mem' := rxToPkt cid rx pkt mem
    (true, (queue.addUsed mem' head.index (pkt.usedLen mem')).2)
  | .error _ => (false, queue, mem)

/-- Send a message to the guest, or keep it for later. A full muxer queue refuses it, and the
refusal is ignored. -/
def pushPacket (cid : U64) (rx : MuxerRx) (s : RxSide M) : Option (RxSide M) :=
  match s.queue.pop s.mem with
  | none => none
  | some (some head, queue) =>
    let (_, queue', mem') := pushTo cid rx head queue s.mem
    some { s with queue := queue', mem := mem' }
  | some (none, queue) => some { s with queue := queue, rxq := (s.rxq.push rx).2 }

theorem pushPacket_isSome [LawfulGuestMemory M] {s : RxSide M}
    (h : s.queue.RingsMapped s.mem) (cid : U64) (rx : MuxerRx) :
    ∃ s', pushPacket cid rx s = some s' := by
  obtain ⟨⟨head, queue⟩, hpop⟩ := Queue.pop_isSome h
  unfold pushPacket
  cases head with
  | none | some => exact ⟨_, by rw [hpop]⟩

/-! ## What is written -/

theorem rxToPkt_within [LawfulGuestMemory M] (cid : U64) (rx : MuxerRx) (pkt : VsockPacket)
    (m : M) : pkt.Within m (rxToPkt cid rx pkt m) := by
  have h5 : ∀ op localPort peerPort, pkt.Within m (m |> pkt.setOp op |> pkt.setSrcCid vsockHostCid
      |> pkt.setDstCid cid |> pkt.setSrcPort localPort |> pkt.setDstPort peerPort) :=
    fun _ _ _ => (((((VsockPacket.Within.refl pkt m).set ..).set ..).set ..).set ..).set ..
  cases rx with
  | reset lp pp => exact (((((h5 _ lp pp).set ..).set ..).set ..).set ..).set ..
  | connResponse lp pp _ | listenResponse lp pp _ | acceptResponse lp pp _ =>
    exact (((h5 _ lp pp).set ..).writeBuf (by simp)).set ..
  | getnameResponse lp pp data =>
    exact (((((h5 _ lp pp).set ..).writeBuf (by simp)).writeBuf (by simp)).writeBuf
      (by simp)).set ..
  | opRequest lp pp | opResponse lp pp | creditRequest lp pp _ | creditUpdate lp pp _ =>
    exact (((h5 _ lp pp).set ..).set ..).set ..

namespace MuxerRx

/-- The header fields that `rxToPkt` sets, in its order. -/
def fieldsSet : MuxerRx → List HdrField
  | reset .. => [.op, .srcCid, .dstCid, .srcPort, .dstPort, .len, .type, .flags, .bufAlloc, .fwdCnt]
  | opRequest .. | opResponse .. =>
    [.op, .srcCid, .dstCid, .srcPort, .dstPort, .type, .bufAlloc, .len]
  | creditRequest .. | creditUpdate .. =>
    [.op, .srcCid, .dstCid, .srcPort, .dstPort, .type, .bufAlloc, .fwdCnt]
  | _ => [.op, .srcCid, .dstCid, .srcPort, .dstPort, .type, .len]

/-- The parts of the data buffer that `rxToPkt` writes. -/
def dataSet (pkt : VsockPacket) : MuxerRx → List (ℕ × ℕ)
  | getnameResponse .. => pkt.bufRange 10 0 4 ++ pkt.bufRange 10 4 2 ++ pkt.bufRange 10 6 4
  | connResponse .. | listenResponse .. | acceptResponse .. => pkt.bufRange 4 0 4
  | _ => []

def isReset : MuxerRx → Bool
  | reset .. => true
  | _ => false

end MuxerRx

def chainLen (head : DescriptorChain) (m : M) : ℕ :=
  ((head.intoIter.collect m).map fun d => d.len.toNat).sum

section Written

open VsockPacket

variable {pkt : VsockPacket} {m : M}

theorem usedLen_congr {m' : M} (h : SameOn pkt.hdr vsockPktHdrSize m m') :
    pkt.usedLen m' = pkt.usedLen m := by
  unfold usedLen VsockPacket.len
  rw [get_congr h]

theorem head_le_chainLen (head : DescriptorChain) (m : M) : head.len.toNat ≤ chainLen head m := by
  exact Nat.le_add_right _ _

variable [LawfulGuestMemory M]

theorem overwrites_address (h : pkt.InMemory m) (op : U16) (cid : U64) (localPort peerPort : U32) :
    Overwrites m ([.op, .srcCid, .dstCid, .srcPort, .dstPort].map pkt.fieldRange) fun m' => m' |>
    pkt.setOp op |> pkt.setSrcCid vsockHostCid |> pkt.setDstCid cid
          |> pkt.setSrcPort localPort |> pkt.setDstPort peerPort :=
  ((((overwrites_set h .op _).comp (overwrites_set h .srcCid _)).comp
    (overwrites_set h .dstCid _)).comp (overwrites_set h .srcPort _)).comp
    (overwrites_set h .dstPort _)

/-- A response: the address, the type, data that `f` writes, and the length. -/
theorem overwrites_response (h : pkt.InMemory m) (cid : U64) (localPort peerPort : U32)
    {rs : List (ℕ × ℕ)} {f : M → M} (hf : Overwrites m rs f) (len : U32) :
    Overwrites m
      ([.op, .srcCid, .dstCid, .srcPort, .dstPort, .type, .len].map pkt.fieldRange ++ rs)
      fun m' =>
        m' |> pkt.setOp vsockOpRw |> pkt.setSrcCid vsockHostCid |> pkt.setDstCid cid
          |> pkt.setSrcPort localPort |> pkt.setDstPort peerPort |> pkt.setType vsockTypeDgram
          |> f |> pkt.setLen len := by
  have hw := (((overwrites_address h vsockOpRw cid localPort peerPort).comp
    (overwrites_set h .type vsockTypeDgram.toNat)).comp hf).comp (overwrites_set h .len len.toNat)
  refine hw.congr fun x => ?_
  simp only [map_cons, map_nil, cons_append, nil_append, inRanges_cons,
    inRanges_append, inRanges_nil]
  tauto

theorem overwrites_getname (h : pkt.InMemory m) (rsp : TsiGetnameRsp) :
    Overwrites m (pkt.bufRange 10 0 4 ++ pkt.bufRange 10 4 2 ++ pkt.bufRange 10 6 4)
      (pkt.writeGetnameRsp rsp) := by
  have h₁ := overwrites_writeBuf h (show 0 + rsp.addr.octets.toList.length ≤ 10 by simp)
  have h₂ := overwrites_writeBuf h
    (show 4 + (leBytes 2 rsp.port.toNat).reverse.length ≤ 10 by simp)
  have h₃ := overwrites_writeBuf h (show 6 + (leBytes 4 rsp.result.toNat).length ≤ 10 by simp)
  simp only [Vector.length_toList, length_reverse, length_leBytes] at h₁ h₂ h₃
  exact (h₁.comp h₂).comp h₃

theorem overwrites_result (h : pkt.InMemory m) (result : U32) :
    Overwrites m (pkt.bufRange 4 0 4) (pkt.writeBuf 4 0 (leBytes 4 result.toNat)) := by
  have hw := overwrites_writeBuf h (show 0 + (leBytes 4 result.toNat).length ≤ 4 by simp)
  rwa [length_leBytes] at hw

/-- What `rxToPkt` stores does not depend on the buffer, and where is listed by `fieldsSet` and
`dataSet`. -/
theorem rxToPkt_overwrites (h : pkt.InMemory m) (cid : U64) (rx : MuxerRx) :
    Overwrites m (rx.fieldsSet.map pkt.fieldRange ++ rx.dataSet pkt) (rxToPkt cid rx pkt) := by
  cases rx with
  | reset lp pp =>
    exact (((((overwrites_address h vsockOpRst cid lp pp).comp (overwrites_set h .len _)).comp
      (overwrites_set h .type _)).comp (overwrites_set h .flags _)).comp
      (overwrites_set h .bufAlloc _)).comp (overwrites_set h .fwdCnt _)
  | connResponse lp pp result | listenResponse lp pp result | acceptResponse lp pp result =>
    exact overwrites_response h cid lp pp (overwrites_result h result) _
  | getnameResponse lp pp data =>
    exact overwrites_response h cid lp pp (overwrites_getname h data) _
  | opRequest lp pp | opResponse lp pp =>
    exact (((overwrites_address h _ cid lp pp).comp (overwrites_set h .type _)).comp
      (overwrites_set h .bufAlloc _)).comp (overwrites_set h .len _)
  | creditRequest lp pp fwdCnt | creditUpdate lp pp fwdCnt =>
    exact (((overwrites_address h _ cid lp pp).comp (overwrites_set h .type _)).comp
      (overwrites_set h .bufAlloc _)).comp (overwrites_set h .fwdCnt _)

theorem reset_covers {lp pp : U32} {x : ℕ} (hx : Range pkt.hdr vsockPktHdrSize x) :
    InRanges ((MuxerRx.reset lp pp).fieldsSet.map pkt.fieldRange) x := by
  simp only [MuxerRx.fieldsSet, map_cons, map_nil, inRanges_cons, inRanges_nil,
    fieldRange, HdrField.off, HdrField.size, Range, or_false]
  unfold Range vsockPktHdrSize at hx
  omega

theorem flags_not_mem_fieldsSet {rx : MuxerRx} (h : rx.isReset = false) :
    HdrField.flags ∉ rx.fieldsSet := by
  cases rx with
  | reset => exact Bool.noConfusion h
  | _ => simp [MuxerRx.fieldsSet]

/-- The flags are left alone by all other messages, and by a response also what follows them. -/
theorem field_stale {rx : MuxerRx} (h : rx.isReset = false) {i : ℕ} (hi : 32 ≤ i)
    (hi' : i < 36 ∨ rx.fieldsSet = [.op, .srcCid, .dstCid, .srcPort, .dstPort, .type, .len]) :
    ¬ InRanges (rx.fieldsSet.map pkt.fieldRange) (pkt.hdr + i) := by
  rintro ⟨r, hr, hx⟩
  obtain ⟨f, hf, rfl⟩ := mem_map.mp hr
  have hlt : f.off + f.size ≤ 32 ∨ (36 ≤ f.off ∧ i < 36) := by
    rcases hi' with hi' | hi'
    · have hne : f ≠ .flags := fun he => flags_not_mem_fieldsSet h (he ▸ hf)
      have := HdrField.disjoint hne
      simp only [HdrField.off, HdrField.size] at this ⊢
      omega
    · have hall : ∀ f ∈ ([.op, .srcCid, .dstCid, .srcPort, .dstPort, .type, .len] : List HdrField),
          f.off + f.size ≤ 32 := by decide
      exact .inl (hall f (hi' ▸ hf))
  unfold fieldRange Range at hx
  omega

theorem dataSet_range {rx : MuxerRx} {x : ℕ} (hx : InRanges (rx.dataSet pkt) x) :
    rx.fieldsSet = [.op, .srcCid, .dstCid, .srcPort, .dstPort, .type, .len] ∧
      ∃ a ∈ pkt.buf, Range a 10 x := by
  obtain ⟨r, hr, hx⟩ := hx
  have hbuf : ∀ {room off n : ℕ}, off + n ≤ 10 → r ∈ pkt.bufRange room off n →
      ∃ a ∈ pkt.buf, Range a 10 x := by
    intro room off n hle hr
    unfold bufRange at hr
    split_ifs at hr
    · obtain ⟨a, ha, rfl⟩ : ∃ a, pkt.buf = some a ∧ (a + off, n) = r := by simpa using hr
      exact ⟨a, ha, hx.mono (by dsimp only; omega) (by dsimp only; omega)⟩
    · simp at hr
  cases rx with
  | connResponse | listenResponse | acceptResponse => exact ⟨rfl, hbuf (by omega) hr⟩
  | getnameResponse =>
    refine ⟨rfl, ?_⟩
    rcases mem_append.mp hr with hr | hr
    · rcases mem_append.mp hr with hr | hr
      all_goals exact hbuf (by omega) hr
    · exact hbuf (by omega) hr
  | _ => simp [MuxerRx.dataSet] at hr

/-- Any message but a reset leaves a byte of the header as it was, even if the guest made the
data buffer overlap the header: a response writes at most ten bytes of data, and does not set the
last twelve bytes of the header. -/
theorem exists_stale (pkt : VsockPacket) {rx : MuxerRx} (h : rx.isReset = false) :
    ∃ i < vsockPktHdrSize,
      ¬ InRanges (rx.fieldsSet.map pkt.fieldRange ++ rx.dataSet pkt) (pkt.hdr + i) := by
  by_cases hd : InRanges (rx.dataSet pkt) (pkt.hdr + 32)
  · -- the data reaches the flags, so it ends before the last byte
    obtain ⟨hf, a, ha, h32⟩ := dataSet_range hd
    refine ⟨43, by decide, fun hx => ?_⟩
    rcases (inRanges_append _ _ _).mp hx with hx | hx
    · exact field_stale h (by omega) (.inr hf) hx
    · obtain ⟨_, b, hb, h43⟩ := dataSet_range hx
      cases ha.symm.trans hb
      unfold Range at h32 h43
      omega
  · refine ⟨32, by decide, fun hx => ?_⟩
    rcases (inRanges_append _ _ _).mp hx with hx | hx
    · exact field_stale h (by omega) (.inl (by omega)) hx
    · exact hd hx

/-! ## Determinism -/

theorem usedLen_reset (h : pkt.InMemory m) (cid : U64) (lp pp : U32) :
    pkt.usedLen (rxToPkt cid (.reset lp pp) pkt m) = BitVec.ofNat 32 vsockPktHdrSize := by
  have h5 := (overwrites_address h vsockOpRst cid lp pp).layout m (SameLayout.refl m)
  simp only [rxToPkt, usedLen, VsockPacket.len, setFwdCnt, setBufAlloc, setFlags, setType,
    get_set_ne (show HdrField.fwdCnt ≠ .len by decide),
    get_set_ne (show HdrField.bufAlloc ≠ .len by decide),
    get_set_ne (show HdrField.flags ≠ .len by decide),
    get_set_ne (show HdrField.type ≠ .len by decide)]
  rw [setLen, get_set (h.congr h5)]
  rfl

theorem flip_ne : ∀ b : Byte, ~~~ b ≠ b := by decide

/-- **Determinism.** For a chain that is an RX packet: the header bytes that `rxToPkt` leaves and
the used length are the same whatever the packet's bytes held before, and the used length is
within the chain, exactly when the message is a reset. -/
theorem rxToPkt_deterministic_iff {head : DescriptorChain} (hpkt : fromRxVirtqHead head m = .ok pkt)
    (cid : U64) (rx : MuxerRx) :
    (∀ m' : M, SameLayout m m' → SameOutside pkt.Bytes m m' →
      pkt.hdrBytes (rxToPkt cid rx pkt m') = pkt.hdrBytes (rxToPkt cid rx pkt m) ∧
        pkt.usedLen (rxToPkt cid rx pkt m') = pkt.usedLen (rxToPkt cid rx pkt m) ∧
        (pkt.usedLen (rxToPkt cid rx pkt m')).toNat ≤ chainLen head m) ↔
      rx.isReset = true := by
  obtain ⟨hin, hhdr, hlen, _⟩ := fromRxVirtqHead_ok hpkt
  have hw := rxToPkt_overwrites hin cid rx
  constructor
  · intro hdet
    by_contra hr
    -- flip a byte that the message does not set
    obtain ⟨i, hi, hstale⟩ := exists_stale pkt (Bool.eq_false_iff.mpr hr)
    have hmap : Mapped m (pkt.hdr + i) [~~~ byte m (pkt.hdr + i)].length :=
      hin.hdr.mono (Nat.le_add_right _ _) (by simp; omega)
    have hwr := writeSlice_wrote hmap
    obtain ⟨heq, _⟩ := hdet _ hwr.layout (hwr.frame.mono fun x hx =>
      .inl (hx.mono (Nat.le_add_right _ _) (by simp; omega)))
    have hflip := LawfulGuestMemory.writeSlice_byte hmap (i := 0) (by simp)
    have hbyte := byte_of_bytesAt_eq heq hi
    rw [hw.frame _ hwr.layout _ hstale, hw.frame m (SameLayout.refl m) _ hstale] at hbyte
    exact flip_ne _ (hflip.symm.trans hbyte)
  · intro hr m' hl hout
    cases rx with
    | reset lp pp =>
      have hsame : SameOn pkt.hdr vsockPktHdrSize (rxToPkt cid (.reset lp pp) pkt m)
          (rxToPkt cid (.reset lp pp) pkt m') := by
        intro x hx
        refine hw.sameOutside (SameLayout.refl m) hl hout x fun hx' => hx'.2 ?_
        exact (inRanges_append _ _ x).mpr (.inl (reset_covers hx))
      refine ⟨bytesAt_congr hsame, usedLen_congr hsame, ?_⟩
      rw [usedLen_reset (hin.congr hl)]
      exact le_trans hlen (head_le_chainLen head m)
    | _ => exact Bool.noConfusion hr

end Written

/-! A buffer of 64 bytes in one descriptor, once zeroed and once with 512 in the place of the
length field. -/

def rxHead : DescriptorChain := ⟨0, 4, 4, 0, 0x100, 64, virtqDescFWrite, 0⟩

def rxPacket : VsockPacket := ⟨0x100, some 0x12c, 20⟩

theorem rxMemory_layout : LayoutOk [⟨0, 0x200⟩] := by decide

def rxMemory : FlatMemory := FlatMemory.zeroed [⟨0, 0x200⟩] rxMemory_layout

def staleMemory : FlatMemory := rxMemory.put 0x118 (leBytes 4 512)

theorem fromRx_rxHead : VsockPacket.fromRxVirtqHead rxHead rxMemory = .ok rxPacket := by decide

theorem staleMemory_outside : SameOutside rxPacket.Bytes rxMemory staleMemory := by
  intro x hx
  refine FlatMemory.put_data_of_lt ?_
  have : ¬ Range rxPacket.hdr vsockPktHdrSize x := fun h => hx (.inl h)
  simp only [Range, rxPacket, vsockPktHdrSize] at this
  rw [length_leBytes]
  omega

theorem rxToPkt_reset_stale :
    rxPacket.hdrBytes (rxToPkt 3 (.reset 5 6) rxPacket staleMemory) =
        rxPacket.hdrBytes (rxToPkt 3 (.reset 5 6) rxPacket rxMemory) ∧
      (rxPacket.usedLen (rxToPkt 3 (.reset 5 6) rxPacket staleMemory)).toNat ≤
        chainLen rxHead rxMemory := by
  obtain ⟨hhdr, _, hle⟩ := (rxToPkt_deterministic_iff fromRx_rxHead 3 (.reset 5 6)).mpr rfl
    staleMemory (FlatMemory.sameLayout_put _ _ _) staleMemory_outside
  exact ⟨hhdr, hle⟩

/-- A credit update does not set the length, so the stale one goes to the used ring, past the
end of the chain. -/
theorem rxToPkt_creditUpdate_stale :
    VsockPacket.fromRxVirtqHead rxHead rxMemory = .ok rxPacket ∧
      SameOutside rxPacket.Bytes rxMemory staleMemory ∧
      rxPacket.hdrBytes (rxToPkt 3 (.creditUpdate 5 6 7) rxPacket staleMemory) ≠
        rxPacket.hdrBytes (rxToPkt 3 (.creditUpdate 5 6 7) rxPacket rxMemory) ∧
      rxPacket.usedLen (rxToPkt 3 (.creditUpdate 5 6 7) rxPacket rxMemory) = 44 ∧
      rxPacket.usedLen (rxToPkt 3 (.creditUpdate 5 6 7) rxPacket staleMemory) = 556 ∧
      chainLen rxHead rxMemory = 64 :=
  ⟨fromRx_rxHead, staleMemory_outside, by decide +kernel, by decide +kernel, by decide +kernel,
    by decide +kernel⟩

end Shelter.Vsock
