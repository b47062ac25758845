import Shelter.Vsock.ProxyRun

/-!
# What a stream proxy delivers

`fill` writes what it received into the buffer of a packet and then the header over it;
`add_used` writes to the used ring. When header, buffer and used ring are apart, the guest finds
the received bytes in the packet. `delivered_eq_received` follows for whole runs: the payloads,
one after the other, are the bytes read from the socket.
-/

open Bytes Run

namespace Shelter.Vsock

open Virtio VsockPacket StreamConn List

variable {M : Type} {pkt : VsockPacket} {m : M} {buf : ℕ} {bs : List Byte} {q : Queue}
  {c c' c₁ : StreamConn} {io io' io₁ : Io M}

structure Delivery.WellFormed (d : Delivery) : Prop where
  op : d.op = vsockOpRw
  len : d.len.toNat = d.payload.length
  usedLen : d.usedLen.toNat = vsockPktHdrSize + d.payload.length
  fits : d.payload.length ≤ d.bufSize

/-- The counters and the records, against each other. -/
structure DeliveryInv (c : StreamConn) (io : Io M) : Prop where
  payloads : io.delivered.flatMap Delivery.payload = io.received
  wellFormed : ∀ d ∈ io.delivered, d.WellFormed
  rxCnt : c.rxCnt = BitVec.ofNat 32 io.received.length

theorem DeliveryInv.quiet (h : DeliveryInv c io) (hq : Quiet c c' io io') : DeliveryInv c' io' where
  payloads := by rw [hq.delivered, hq.received, h.payloads]
  wellFormed d hd := h.wellFormed d (hq.delivered ▸ hd)
  rxCnt := by rw [hq.rxCnt, hq.received, h.rxCnt]

theorem DeliveryInv.add (h : DeliveryInv c io) {d : Delivery}
    (hd : io'.delivered = io.delivered ++ [d]) (hw : d.WellFormed)
    (hr : io'.received = io.received ++ d.payload)
    (hc : c'.rxCnt = c.rxCnt + BitVec.ofNat 32 d.payload.length) : DeliveryInv c' io' where
  payloads := by rw [hd, hr, flatMap_append, h.payloads, flatMap_singleton]
  wellFormed d' hd' := by
    rw [hd, mem_append, mem_singleton] at hd'
    rcases hd' with hd' | rfl
    · exact h.wellFormed d' hd'
    · exact hw
  rxCnt := by rw [hc, h.rxCnt, hr, length_append, BitVec.ofNat_add]

variable [GuestMemory M]

def Io.nextPacket (io : Io M) : Option VsockPacket :=
  match io.queue.pop io.mem with
  | some (some head, _) => (fromRxVirtqHead head io.mem).toOption
  | _ => none

/-- The next packet has its header and its buffer apart, and both apart from the used ring. -/
def Io.NextApart (io : Io M) : Prop :=
  ∀ pkt ∈ io.nextPacket, (∀ a ∈ pkt.buf, Apart pkt.hdr vsockPktHdrSize a pkt.bufSize) ∧
    pkt.ApartFrom io.queue.usedRing.toNat (6 + 8 * io.queue.size.toNat)
  deriving Decidable

theorem delivery_payload (hbuf : pkt.buf = some buf) (hlen : (pkt.len m).toNat = bs.length)
    (hpay : bytesAt m buf bs.length = bs) (head : U16) (len : ℕ) (c : StreamConn) :
    (receiver.delivery head len pkt c m).payload = bs := by
  show bytesAt m (pkt.buf.getD 0) (pkt.len m).toNat = bs
  rw [hbuf, hlen]
  exact hpay

theorem DeliveryInv.place (h : DeliveryInv c io) {head : U16} (hbuf : pkt.buf = some buf)
    (hfits : bs.length ≤ pkt.bufSize) (hrw : bs.length ≤ maxRwCount)
    (hc : c₁.rxCnt = c.rxCnt + BitVec.ofNat 32 bs.length) (hd : io₁.delivered = io.delivered)
    (hr : io₁.received = io.received ++ bs)
    (hm : m = (receiver.place head (vsockPktHdrSize + bs.length) pkt c₁ io₁).2.mem)
    (hop : pkt.op m = vsockOpRw) (hlen : (pkt.len m).toNat = bs.length)
    (hpay : bytesAt m buf bs.length = bs) :
    DeliveryInv (receiver.place head (vsockPktHdrSize + bs.length) pkt c₁ io₁).1
      (receiver.place head (vsockPktHdrSize + bs.length) pkt c₁ io₁).2 := by
  have hp := delivery_payload hbuf hlen hpay head (vsockPktHdrSize + bs.length) c₁
  have hused : (BitVec.ofNat 32 (vsockPktHdrSize + bs.length)).toNat =
      vsockPktHdrSize + bs.length := by
    rw [BitVec.toNat_ofNat, Nat.mod_eq_of_lt]
    unfold vsockPktHdrSize maxRwCount at *
    omega
  refine h.add (d := receiver.delivery head (vsockPktHdrSize + bs.length) pkt c₁ m)
    ?_ ⟨hop, by rw [hp]; exact hlen, by rw [hp]; exact hused, by rw [hp]; exact hfits⟩ ?_ ?_
  · rw [Receiver.place_delivered, hd, hm]
  · rw [Receiver.place_received, hr, hp]
  · rw [hp]
    exact hc

variable [LawfulGuestMemory M]

namespace StreamConn

theorem initDataPkt_onlyHdr (c : StreamConn) (pkt : VsockPacket) (m : M) :
    pkt.OnlyHdr m (c.initDataPkt pkt m) :=
  .set (.set (.set (.set (.set (.set (.set (.set ⟨.refl m, .refl _ m⟩ ..) ..) ..) ..) ..) ..) ..) ..

theorem initDataPkt_setLen (h : pkt.InMemory m) (c : StreamConn) (n : U32) :
    pkt.op (c.initDataPkt pkt m |> pkt.setLen n) = vsockOpRw ∧
      pkt.len (c.initDataPkt pkt m |> pkt.setLen n) = n := by
  constructor
  · unfold op setLen initDataPkt setFwdCnt
      setBufAlloc setType setDstPort setSrcPort
      setDstCid setSrcCid setOp
    repeat rw [get_set_ne (by decide)]
    rw [get_set h]
    rfl
  · unfold len setLen
    rw [get_set (h.congr (initDataPkt_onlyHdr c pkt m).layout)]
    have hn := n.isLt
    exact BitVec.eq_of_toNat_eq (by simpa [HdrField.size] using hn)

end StreamConn

/-- What the guest finds in a packet into which `bs` was received, once it is in the used ring. -/
theorem placed_packet (hin : pkt.InMemory m) (hbuf : pkt.buf = some buf)
    (hfits : bs.length ≤ pkt.bufSize) (hsmall : bs.length < 2 ^ 32) (hrings : q.RingsMapped m)
    (hhb : Apart pkt.hdr vsockPktHdrSize buf pkt.bufSize)
    (hused : pkt.ApartFrom q.usedRing.toNat (6 + 8 * q.size.toNat)) (c : StreamConn) (head : U16)
    (usedLen : U32) {m₂ m₃ : M}
    (h₂ : m₂ = ((writeSlice m buf bs).1 |> c.initDataPkt pkt
      |> pkt.setLen (BitVec.ofNat 32 bs.length)))
    (h₃ : m₃ = (q.addUsed m₂ head usedLen).2.2) :
    pkt.op m₃ = vsockOpRw ∧ (pkt.len m₃).toNat = bs.length ∧ bytesAt m₃ buf bs.length = bs ∧
      (q.addUsed m₂ head usedLen).2.1.RingsMapped m₃ := by
  have hw : Wrote buf bs m (writeSlice m buf bs).1 :=
    writeSlice_wrote ((hin.buf buf hbuf).mono le_rfl (by omega))
  have hhdr : pkt.OnlyHdr (writeSlice m buf bs).1 m₂ := by
    rw [h₂]
    exact (initDataPkt_onlyHdr c pkt _).set _ _
  have hl₂ : SameLayout m m₂ := hw.layout.trans hhdr.layout
  have hrings₂ := hrings.congr (.refl q) hl₂
  obtain ⟨hl₃, _, hframe⟩ := Queue.addUsed_frame hrings₂ head usedLen
  rw [← h₃] at hl₃ hframe
  obtain ⟨hop, hlen⟩ := initDataPkt_setLen (hin.congr hw.layout) c
    (BitVec.ofNat 32 bs.length)
  rw [← h₂] at hop hlen
  have hsame := hframe.sameOn hused.hdr.symm
  refine ⟨?_, ?_, ?_, hrings₂.congr (Queue.addUsed_config hrings₂ head usedLen) hl₃⟩
  · rw [← hop]
    unfold op
    rw [get_congr hsame]
  · have he : pkt.len m₃ = pkt.len m₂ := by
      unfold len
      rw [get_congr hsame]
    rw [he, hlen, BitVec.toNat_ofNat, Nat.mod_eq_of_lt hsmall]
  · have hb₂ := hhdr.frame.sameOn hhb
    have hb₃ := hframe.sameOn (hused.buf buf hbuf).symm
    rw [bytesAt_congr ((hb₂.trans hb₃).mono le_rfl (by omega)), hw.bytes]

theorem DeliveryInv.next {c₂ : StreamConn} {head : DescriptorChain} {answer : RecvAnswer}
    {len : ℕ} {io₂ : Io M} (h : DeliveryInv c io) (hrings : io.queue.RingsMapped io.mem)
    (hap : io.NextApart) (hpop : io.queue.pop io.mem = some (some head, q))
    (hfill : c.fill head answer { io with queue := q } = .used len pkt c₁ io₁)
    (hplace : receiver.place head.index len pkt c₁ io₁ = (c₂, io₂)) :
    DeliveryInv c₂ io₂ ∧ io₂.queue.RingsMapped io₂.mem := by
  obtain ⟨buf, bs, hpkt, hbuf, _, hfits, _, hrw, rfl, hc₁, hio₁⟩ := fill_used hfill
  obtain ⟨hin, _⟩ := fromRxVirtqHead_ok hpkt
  obtain ⟨hhb, hused⟩ := hap pkt (by
    unfold Io.nextPacket
    rw [hpop]
    simp only at hpkt ⊢
    rw [hpkt]
    rfl)
  have hcfg : Queue.SameConfig io.queue q := Queue.pop_config hpop
  rw [← hcfg.usedRing, ← hcfg.size] at hused
  have hmem :
      (receiver.place head.index (vsockPktHdrSize + bs.length) pkt c₁ io₁).2.mem =
      (q.addUsed io₁.mem head.index (BitVec.ofNat 32 (vsockPktHdrSize + bs.length))).2.2 := by
    rw [Receiver.place_mem, hio₁]
  obtain ⟨hop, hlen, hpay, hrings₂⟩ := placed_packet hin hbuf hfits
    (by unfold maxRwCount at hrw; omega) (hrings.congr hcfg (.refl _)) (hhb buf hbuf) hused c₁
    head.index (BitVec.ofNat 32 (vsockPktHdrSize + bs.length)) (by rw [hio₁]) hmem
  have hinv := h.place hbuf hfits hrw (by rw [hc₁]) (by rw [hio₁]) (by rw [hio₁]) rfl hop hlen hpay
  rw [hplace] at hinv hrings₂
  refine ⟨hinv, ?_⟩
  have hq : io₁.queue = q := by rw [hio₁]
  have hio₂ : _ = io₂ := congrArg Prod.snd hplace
  rw [← hio₂, Receiver.place_queue, hq, hio₂]
  exact hrings₂

theorem DeliveryInv.recvPkt {answers : List RecvAnswer} {haveUsed wait : Bool}
    (h : DeliveryInv c io) (hrings : io.queue.RingsMapped io.mem)
    (hap : receiver.LoopAlong (fun _ _ io => io.NextApart) answers c io)
    (hr : c.recvPkt answers io = some (haveUsed, wait, c', io')) : DeliveryInv c' io' := by
  refine Receiver.recvLoop_rule (J := fun _ => DeliveryInv)
    (I := fun c io => DeliveryInv c io ∧ io.queue.RingsMapped io.mem) (fun _ _ h => h.1) ?_ ?_
    ⟨h, hrings⟩ hap hr
  · rintro answer c₁ io₁ wait c₂ io₂ ⟨h₁, _⟩ _ hturn
    exact h₁.quiet (turn_stop_quiet hturn)
  · rintro answer c₁ io₁ c₂ io₂ ⟨h₁, hr₁⟩ hap₁ hturn
    obtain ⟨head, q, len, pkt, c₃, io₃, hpop, hfill, hplace⟩ := Receiver.turn_next hturn
    exact h₁.next hr₁ hap₁ hpop hfill hplace

/-! ## Whole runs -/

def ProxyCall.recvAnswers? : ProxyCall → Option (List RecvAnswer)
  | processEvent _ answers _ => some answers
  | _ => none

/-- At a call the rings are mapped, and each packet the call may fill is apart. -/
def ProxyState.RxValid (s : ProxyState M) : ProxyEvent M → Prop
  | .others _ => True
  | .call call => s.io.queue.RingsMapped s.io.mem ∧ ∀ c ∈ s.proxy.conn?,
      ∀ answers ∈ call.recvAnswers?,
        receiver.LoopAlong (fun _ _ io => io.NextApart) answers c s.io

instance (s : ProxyState M) : (e : ProxyEvent M) → Decidable (s.RxValid e)
  | .others _ => isTrue trivial
  | .call call => inferInstanceAs (Decidable (_ ∧ ∀ c ∈ s.proxy.conn?,
      ∀ answers ∈ call.recvAnswers?,
        receiver.LoopAlong (fun _ _ io => io.NextApart) answers c s.io))

theorem DeliveryInv.step {s s' : ProxyState M} {e : ProxyEvent M} (hc : s.proxy.conn? = some c)
    (h : DeliveryInv c s.io) (hv : s.RxValid e) (hs : s.step e = some s') :
    ∃ c', s'.proxy.conn? = some c' ∧ DeliveryInv c' s'.io := by
  cases e with
  | others rx =>
    obtain rfl := ProxyState.step_others hs
    exact ⟨c, hc, ⟨h.payloads, h.wellFormed, h.rxCnt⟩⟩
  | call call =>
    obtain ⟨update, hcall⟩ := ProxyState.step_call hs
    obtain ⟨c', hc', heff⟩ := Proxy.call_effect hc hcall
    refine ⟨c', hc', ?_⟩
    cases heff with
    | quiet hq => exact h.quiet hq
    | credit pkt _ hq =>
      have h₁ : DeliveryInv (c.setPeerCredit pkt s.io.mem) s.io :=
        ⟨h.payloads, h.wellFormed, h.rxCnt⟩
      exact h₁.quiet hq
    | receive evset answers accepted haveUsed wait c₁ io₁ hcall' _ hrecv hq =>
      subst hcall'
      exact (h.recvPkt hv.1 (hv.2 c hc answers rfl) hrecv).quiet hq

/-- **Delivery.** In every run of a stream proxy from its creation with mapped rings, in which the
header and the buffer of each RX packet it fills are apart from each other and from the used ring:
the payloads delivered are, in order, the bytes received, each data packet is well formed, and
`rx_cnt` counts the bytes. -/
theorem delivered_eq_received {s s' : ProxyState M} {es : List (ProxyEvent M)} {c : StreamConn}
    (hp : s.proxy.Created) (hconn : s.proxy.conn? = some c) (hd : s.io.delivered = [])
    (hrec : s.io.received = []) (hv : Along ProxyState.step ProxyState.RxValid s es)
    (hr : run ProxyState.step s es = some s') :
    s'.io.delivered.flatMap Delivery.payload = s'.io.received ∧
      (∀ d ∈ s'.io.delivered, d.WellFormed) ∧
      ∃ c', s'.proxy.conn? = some c' ∧
        c'.rxCnt = BitVec.ofNat 32 (s'.io.delivered.flatMap Delivery.payload).length := by
  have h0 : DeliveryInv c s.io :=
    ⟨by simp [hd, hrec], by simp [hd], by simp [hrec, (hp.counters hconn).1]⟩
  obtain ⟨c', hc', h⟩ := along_invariant
    (P := fun t : ProxyState M => ∃ c, t.proxy.conn? = some c ∧ DeliveryInv c t.io)
    (fun t e t' ⟨c, hc, h⟩ hv hs => DeliveryInv.step hc h hv hs) ⟨c, hconn, h0⟩ hv hr
  exact ⟨h.payloads, h.wellFormed, c', hc', by rw [h.payloads, h.rxCnt]⟩

/-! Two reads, the second longer than the credit. -/

def twoReads : List (ProxyEvent FlatMemory) :=
  [.call (.updatePeerCredit firstPacket),
    .call (.processEvent .IN [.ok [1, 2, 3], .ok [4, 5, 6, 7, 8, 9]] (.error eagain))]

theorem twoReads_delivered :
    ∃ t, run ProxyState.step (smallProxy 8 4) twoReads = some t ∧
      t.io.delivered.map Delivery.payload = [[1, 2, 3], [4, 5, 6, 7, 8]] ∧
      t.io.delivered.flatMap Delivery.payload = t.io.received ∧
      ∀ d ∈ t.io.delivered, d.WellFormed := by
  obtain ⟨t, ht, hd⟩ : ∃ t, run ProxyState.step (smallProxy 8 4) twoReads = some t ∧
      t.io.delivered.map Delivery.payload = [[1, 2, 3], [4, 5, 6, 7, 8]] := by decide +kernel
  obtain ⟨hpay, hwf, _⟩ := delivered_eq_received (.tcp ..) rfl rfl rfl (by decide +kernel) ht
  exact ⟨t, ht, hd, hpay, hwf⟩

end Shelter.Vsock
