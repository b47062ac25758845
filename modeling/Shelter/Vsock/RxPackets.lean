import Shelter.Vsock.RxSystem

/-!
# The packets of the RX queue

`from_rx_virtq_head` looks at the flag of the head only. When the buffer is in a descriptor of its
own, that one may be read-only, and header and buffer may overlap. Of the head just the 44 bytes of
the header are looked up in memory.
-/

open Bytes Run

namespace Shelter.Vsock

open Virtio

variable {M : Type} [GuestMemory M]

/-! ## Where a packet lies -/

variable (head : DescriptorChain)

/-- The descriptor the data buffer is taken from. -/
def rxBufDesc (m : M) : Option DescriptorChain :=
  if head.hasNext then head.nextDescriptor m else some head

/-- A byte of a device-writable descriptor of the packet. -/
def RxWritable (m : M) (x : ℕ) : Prop :=
  ∃ d, (d = head ∨ rxBufDesc head m = some d) ∧ d.isWriteOnly = true ∧
    Range d.addr.toNat d.len.toNat x

/-- The descriptors are writable and in memory, header and buffer are disjoint parts of them, and
no call writes anything else. -/
structure RxSafe (head : DescriptorChain) (m : M) (pkt : VsockPacket) : Prop where
  writable : ∀ d, (d = head ∨ rxBufDesc head m = some d) →
    d.isWriteOnly = true ∧ Mapped m d.addr.toNat d.len.toNat
  hdr : pkt.hdr = head.addr.toNat ∧ vsockPktHdrSize ≤ head.len.toNat
  buf : ∃ a d, pkt.buf = some a ∧ rxBufDesc head m = some d ∧ d.addr.toNat ≤ a ∧
    a + pkt.bufSize ≤ d.addr.toNat + d.len.toNat ∧ Apart pkt.hdr vsockPktHdrSize a pkt.bufSize
  filled : ∀ cid q rxq answer call call' mem len,
    RxCall.onHead cid ⟨q, m, rxq⟩ head answer call = .use call' mem len →
    SameOutside (RxWritable head m) m mem
  taken : ∀ cid rx, SameOutside (RxWritable head m) m (rxToPkt cid rx pkt m)

/-- What is left to the driver if it uses two descriptors. -/
def TwoDescriptors (m : M) : Prop :=
  Mapped m head.addr.toNat head.len.toNat ∧ ∀ d ∈ head.nextDescriptor m, d.isWriteOnly = true ∧
    Apart head.addr.toNat vsockPktHdrSize d.addr.toNat d.len.toNat

variable {head : DescriptorChain} {m : M} {pkt : VsockPacket}

theorem bytes_writable {a : ℕ} {d : DescriptorChain} (hw : head.isWriteOnly = true)
    (hhdr : pkt.hdr = head.addr.toNat) (hlen : vsockPktHdrSize ≤ head.len.toNat)
    (hbuf : pkt.buf = some a) (hd : rxBufDesc head m = some d) (hdw : d.isWriteOnly = true)
    (hle : d.addr.toNat ≤ a) (hend : a + pkt.bufSize ≤ d.addr.toNat + d.len.toNat) {x : ℕ}
    (hx : pkt.Bytes x) : RxWritable head m x := by
  obtain hx | ⟨b, hb, hx⟩ := hx
  · exact ⟨head, .inl rfl, hw, hx.mono hhdr.ge (by omega)⟩
  · cases hbuf.symm.trans hb
    exact ⟨d, .inr hd, hdw, hx.mono hle hend⟩

variable [LawfulGuestMemory M]

/-- A packet made of a chain is safe if and only if the chain is a single descriptor or the driver
has seen to the rest. -/
theorem rx_packet_safe_iff (h : VsockPacket.fromRxVirtqHead head m = .ok pkt) :
    RxSafe head m pkt ↔ (head.hasNext = true → TwoDescriptors head m) := by
  obtain ⟨hw, hlen, hmap, b, n, rfl, hbmap, -, hlay⟩ := VsockPacket.fromRxVirtqHead_layout h
  constructor
  · intro hs hnext
    have hd : rxBufDesc head m = head.nextDescriptor m := if_pos hnext
    refine ⟨(hs.writable head (.inl rfl)).2, fun d hd' => ?_⟩
    obtain ⟨a, d', ⟨⟩, hd₁, -, -, hapart⟩ := hs.buf
    obtain ⟨hno, -⟩ | ⟨d₂, hd₂, rfl, rfl⟩ := hlay
    · exact absurd hnext (by simp [hno])
    cases hd₂.symm.trans hd'
    exact ⟨(hs.writable d (.inr (hd.trans hd'))).1, hapart⟩
  · intro hcond
    obtain ⟨d, hd, hdw, hdm, hhead, hle, hend, hapart⟩ : ∃ d, rxBufDesc head m = some d ∧
        d.isWriteOnly = true ∧ Mapped m d.addr.toNat d.len.toNat ∧
        Mapped m head.addr.toNat head.len.toNat ∧ d.addr.toNat ≤ b ∧
        b + n ≤ d.addr.toNat + d.len.toNat ∧ Apart head.addr.toNat vsockPktHdrSize b n := by
      obtain ⟨hno, rfl, hn⟩ | ⟨d, hd, rfl, rfl⟩ := hlay
      · have hall : Mapped m head.addr.toNat head.len.toNat := fun i hi => by
          by_cases hlt : i < vsockPktHdrSize
          · exact hmap i hlt
          · have := hbmap (i - vsockPktHdrSize) (by omega)
            rwa [Nat.add_assoc, Nat.add_sub_cancel' (by omega)] at this
        exact ⟨head, by simp [rxBufDesc, hno], hw, hall, hall, by omega, by omega,
          apart_of_le (.inl le_rfl)⟩
      · have hnext : head.hasNext = true := by
          by_contra hn
          simp [DescriptorChain.nextDescriptor, hn] at hd
        obtain ⟨hhead, hnextd⟩ := hcond hnext
        exact ⟨d, (if_pos hnext).trans hd, (hnextd d hd).1, hbmap, hhead, le_rfl, le_rfl,
          (hnextd d hd).2⟩
    have hbytes : ∀ x, VsockPacket.Bytes ⟨head.addr.toNat, some b, n⟩ x → RxWritable head m x :=
      fun x => bytes_writable hw rfl hlen rfl hd hdw hle hend
    refine ⟨?_, ⟨rfl, hlen⟩, ⟨b, d, rfl, hd, hle, hend, hapart⟩, ?_, fun cid rx =>
      (rxToPkt_within cid rx _ m).frame.mono hbytes⟩
    · rintro d' (rfl | hd')
      · exact ⟨hw, hhead⟩
      · cases hd.symm.trans hd'
        exact ⟨hdw, hdm⟩
    · intro cid q rxq answer call call' mem len huse
      have hspec := call.onHead_spec cid ⟨q, m, rxq⟩ head answer
      rw [huse] at hspec
      obtain ⟨-, rfl | ⟨pkt', hpkt', hwithin⟩⟩ := hspec
      · exact .refl _ _
      · cases h.symm.trans hpkt'
        exact hwithin.frame.mono hbytes

theorem rx_packet_safe_single : RxSafe rxHead rxMemory rxPacket :=
  (rx_packet_safe_iff fromRx_rxHead).mpr fun h => absurd h (by decide)

/-- The second descriptor is read-only and lies over the header. -/
def overlapping : FlatMemory :=
  rxMemory.put 0x10 (leBytes 8 0x110 ++ leBytes 4 16 ++ leBytes 2 0 ++ leBytes 2 0)

theorem rx_packet_unsafe :
    VsockPacket.fromRxVirtqHead ⟨0, 4, 4, 0, 0x100, 64, 3, 1⟩ overlapping =
        .ok ⟨0x100, some 0x110, 16⟩ ∧
      ¬ RxSafe ⟨0, 4, 4, 0, 0x100, 64, 3, 1⟩ overlapping ⟨0x100, some 0x110, 16⟩ := by
  have hd : rxBufDesc ⟨0, 4, 4, 0, 0x100, 64, 3, 1⟩ overlapping =
      some ⟨0, 4, 3, 1, 0x110, 16, 0, 0⟩ := by decide +kernel
  refine ⟨by decide +kernel, fun hs => ?_⟩
  exact absurd (hs.writable _ (.inr hd)).1 (by decide)

end Shelter.Vsock
