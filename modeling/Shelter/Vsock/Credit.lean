import Shelter.Vsock.ProxyRun

/-!
# The credit of the guest

The guest announces the size of its receive buffer and the bytes it has consumed, and a stream
proxy reads from its socket no more than `peer_avail_credit` allows. Both the bytes in flight and
the credit are differences of 32-bit counters. The credit is right as long as an announcement
covers the bytes in flight; when the guest shrinks its buffer below them the subtraction wraps
and the credit is nearly `2 ^ 32`.
-/

open Bytes Run

namespace Shelter.Vsock

open Virtio StreamConn BitVec

variable {M : Type} [GuestMemory M]

namespace Delivery

def size (d : Delivery) : ℕ := d.usedLen.toNat - vsockPktHdrSize

def inFlightBefore (d : Delivery) : U32 := d.inFlight - BitVec.ofNat 32 d.size

/-- The packet found the bytes in flight below the buffer of the guest, and left them within. -/
structure WithinCredit (d : Delivery) : Prop where
  before : d.inFlightBefore < d.bufAlloc
  after : d.inFlight ≤ d.bufAlloc

end Delivery

variable {c c' : StreamConn} {io io' : Io M} {pkt : VsockPacket}

namespace StreamConn

def Covered (c : StreamConn) : Prop := c.inFlight ≤ c.peerBufAlloc

theorem Covered.credit (h : c.Covered) :
    c.inFlight.toNat + c.peerAvailCredit = c.peerBufAlloc.toNat := by
  unfold Covered inFlight at h
  unfold peerAvailCredit inFlight
  rw [toNat_sub_of_le h]
  have := le_def.mp h
  omega

theorem Covered.receive (h : c.Covered) {n : ℕ} (hn : n ≤ c.peerAvailCredit) :
    ({ c with rxCnt := c.rxCnt + BitVec.ofNat 32 n } : StreamConn).inFlight.toNat =
      c.inFlight.toNat + n := by
  have hc := h.credit
  have he : ({ c with rxCnt := c.rxCnt + BitVec.ofNat 32 n } : StreamConn).inFlight =
      c.inFlight + BitVec.ofNat 32 n := by
    show c.rxCnt + BitVec.ofNat 32 n - c.peerFwdCnt = c.rxCnt - c.peerFwdCnt + BitVec.ofNat 32 n
    bv_omega
  rw [he, toNat_add, toNat_ofNat]
  omega

end StreamConn

/-- What the run keeps: the bytes in flight are covered now, and were at every delivery. -/
def CreditInv (c : StreamConn) (io : Io M) : Prop :=
  c.Covered ∧ ∀ d ∈ io.delivered, d.WithinCredit

omit [GuestMemory M] in
theorem CreditInv.quiet (h : CreditInv c io) (hq : Quiet c c' io io') : CreditInv c' io' := by
  refine ⟨?_, fun d hd => h.2 d (hq.delivered ▸ hd)⟩
  have := h.1
  unfold StreamConn.Covered inFlight at this ⊢
  rwa [hq.rxCnt, hq.peerBufAlloc, hq.peerFwdCnt]

theorem delivery_size {n : ℕ} (hn : n ≤ maxRwCount) {head : U16} {m : M} :
    (receiver.delivery head (vsockPktHdrSize + n) pkt c m).size = n := by
  show (BitVec.ofNat 32 (vsockPktHdrSize + n)).toNat - vsockPktHdrSize = n
  rw [toNat_ofNat]
  unfold vsockPktHdrSize maxRwCount at *
  omega

theorem CreditInv.next {c₁ : StreamConn} {io₁ : Io M} {head : DescriptorChain}
    {answer : RecvAnswer} {len : ℕ} (h : CreditInv c io)
    (hfill : c.fill head answer io = .used len pkt c₁ io₁) :
    CreditInv (receiver.place head.index len pkt c₁ io₁).1
      (receiver.place head.index len pkt c₁ io₁).2 := by
  obtain ⟨buf, bs, _, _, hpos, _, hcred, hrw, rfl, rfl, rfl⟩ := fill_used hfill
  have hadd := h.1.receive hcred
  have hcov := h.1.credit
  have hle : ({ c with rxCnt := c.rxCnt + BitVec.ofNat 32 bs.length } : StreamConn).Covered := by
    show _ ≤ c.peerBufAlloc
    rw [le_def, hadd]
    omega
  refine ⟨hle, fun d hd => ?_⟩
  rw [Receiver.place_delivered, List.mem_append, List.mem_singleton] at hd
  rcases hd with hd | rfl
  · exact h.2 d hd
  refine ⟨?_, hle⟩
  have hb : c.inFlight < c.peerBufAlloc := by
    rw [lt_def]
    omega
  refine lt_of_eq_of_lt ?_ hb
  unfold Delivery.inFlightBefore
  rw [delivery_size hrw]
  show c.rxCnt + BitVec.ofNat 32 bs.length - c.peerFwdCnt - BitVec.ofNat 32 bs.length =
    c.rxCnt - c.peerFwdCnt
  bv_omega

theorem CreditInv.recvPkt {answers : List RecvAnswer} {haveUsed wait : Bool} (h : CreditInv c io)
    (hr : c.recvPkt answers io = some (haveUsed, wait, c', io')) : CreditInv c' io' := by
  refine Receiver.recvLoop_rule (J := fun _ => CreditInv) (I := CreditInv) (fun _ _ h => h) ?_ ?_ h
    (receiver.loopAlong_true answers c io) hr
  · intro answer c₁ io₁ wait c₂ io₂ h₁ _ hturn
    exact h₁.quiet (turn_stop_quiet hturn)
  · intro answer c₁ io₁ c₂ io₂ h₁ _ hturn
    obtain ⟨head, q, len, pkt, c₃, io₃, _, hfill, hplace⟩ := Receiver.turn_next hturn
    have h₂ : CreditInv c₁ { io₁ with queue := q } := h₁
    have hnext := h₂.next hfill
    rw [hplace] at hnext
    exact hnext

/-- An announcement of the guest covers the bytes in flight at that moment. -/
def ProxyState.AnnouncesEnough (s : ProxyState M) : ProxyEvent M → Prop
  | .call call => ∀ c ∈ s.proxy.conn?, ∀ pkt ∈ call.announcement,
      c.rxCnt - pkt.fwdCnt s.io.mem ≤ pkt.bufAlloc s.io.mem
  | .others _ => True

instance (s : ProxyState M) (e : ProxyEvent M) : Decidable (s.AnnouncesEnough e) := by
  unfold ProxyState.AnnouncesEnough
  split <;> infer_instance

theorem CreditInv.step {s s' : ProxyState M} {e : ProxyEvent M} (hc : s.proxy.conn? = some c)
    (h : CreditInv c s.io) (ha : s.AnnouncesEnough e) (hs : s.step e = some s') :
    ∃ c', s'.proxy.conn? = some c' ∧ CreditInv c' s'.io := by
  cases e with
  | others rx =>
    obtain rfl := ProxyState.step_others hs
    exact ⟨c, hc, h⟩
  | call call =>
    obtain ⟨update, hcall⟩ := ProxyState.step_call hs
    obtain ⟨c', hc', heff⟩ := Proxy.call_effect hc hcall
    refine ⟨c', hc', ?_⟩
    cases heff with
    | quiet hq => exact h.quiet hq
    | credit pkt hpkt hq =>
      have hcov : (c.setPeerCredit pkt s.io.mem).Covered := ha c hc pkt hpkt
      exact CreditInv.quiet ⟨hcov, h.2⟩ hq
    | receive evset answers accepted haveUsed wait c₁ io₁ _ _ hrecv hq =>
      exact (h.recvPkt hrecv).quiet hq

/-- **Credit.** In every run of a stream proxy from its creation in which each announcement of
the guest covers the bytes then in flight, no delivery finds the bytes in flight at the size of
the guest's buffer or brings them beyond it. -/
theorem delivered_withinCredit {s s' : ProxyState M} {es : List (ProxyEvent M)}
    (hp : s.proxy.Created) (hconn : s.proxy.conn?.isSome) (hd : s.io.delivered = [])
    (ha : Along ProxyState.step ProxyState.AnnouncesEnough s es)
    (hr : run ProxyState.step s es = some s') :
    (∀ c ∈ s'.proxy.conn?, c.Covered) ∧ ∀ d ∈ s'.io.delivered, d.WithinCredit := by
  obtain ⟨c, hc⟩ := Option.isSome_iff_exists.mp hconn
  have h0 : CreditInv c s.io := by
    refine ⟨?_, by simp [hd]⟩
    obtain ⟨h1, h2, h3⟩ := hp.counters hc
    simp [StreamConn.Covered, inFlight, h1, h2, h3]
  obtain ⟨c', hc', hinv⟩ := along_invariant
    (P := fun t : ProxyState M => ∃ c, t.proxy.conn? = some c ∧ CreditInv c t.io)
    (fun t e t' ⟨c, hc, h⟩ ha hs => CreditInv.step hc h ha hs) ⟨c, hc, h0⟩ ha hr
  refine ⟨fun c hc => ?_, hinv.2⟩
  cases hc'.symm.trans hc
  exact hinv.1

/-! The guest announces 8 bytes and the socket has 8 bytes and one more. -/

def fillCredit : List (ProxyEvent FlatMemory) :=
  [.call (.updatePeerCredit firstPacket),
    .call (.processEvent .IN [.ok [1, 2, 3, 4, 5, 6, 7, 8]] (.error eagain))]

theorem fillCredit_withinCredit :
    ∃ t, run ProxyState.step (smallProxy 8 4) fillCredit = some t ∧
      t.io.delivered.map (fun d => (d.inFlight, d.bufAlloc)) = [(8, 8)] ∧
      ∀ d ∈ t.io.delivered, d.WithinCredit := by
  obtain ⟨t, ht, hd⟩ : ∃ t, run ProxyState.step (smallProxy 8 4) fillCredit = some t ∧
      t.io.delivered.map (fun d => (d.inFlight, d.bufAlloc)) = [(8, 8)] := by decide +kernel
  exact ⟨t, ht, hd, (delivered_withinCredit (.tcp ..) rfl rfl (by decide +kernel) ht).2⟩

/-- Then the guest shrinks its buffer to 4 bytes: the credit wraps and the next byte is delivered
with 9 bytes in flight. -/
theorem shrunk_buffer_overrun :
    (smallProxy 8 4).proxy.Created ∧
      ∃ t, run ProxyState.step (smallProxy 8 4) (fillCredit ++
          [.call (.updatePeerCredit secondPacket),
            .call (.processEvent .IN [.ok [9]] (.error eagain))]) = some t ∧
        ∃ d ∈ t.io.delivered, d.inFlightBefore = 8 ∧ d.inFlight = 9 ∧ d.bufAlloc = 4 := by
  exact ⟨.tcp .., by decide +kernel⟩

end Shelter.Vsock
