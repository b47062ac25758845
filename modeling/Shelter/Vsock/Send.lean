import Shelter.Lib.Run
import Shelter.Vsock.Proxies

/-!
# What a stream proxy sends

The guest sends data in a TX packet: a header that says how many bytes there are, and a data
descriptor that holds at least that many. `sendmsg` hands the whole descriptor to the socket, once.
So the bytes of a packet reach the socket as they are only if the socket takes as many as the
header says: more are bytes the guest did not send, and what it leaves is not sent again.
-/

open Bytes Run

namespace Shelter.Vsock

open Virtio VsockPacket List Option

variable {M : Type} [GuestMemory M]

/-- A data packet of the guest: the memory and the RX side when it is handled, the chain, and how
the socket answers. -/
structure TxPacket (M : Type) [GuestMemory M] where
  rx : RxSide M
  rings : rx.queue.RingsMapped rx.mem
  head : DescriptorChain
  pkt : VsockPacket
  parsed : fromTxVirtqHead head rx.mem = .ok pkt
  op : pkt.op rx.mem = vsockOpRw
  answer : SendAnswer

namespace TxPacket

variable (t : TxPacket M)

def len : ℕ := (t.pkt.len t.rx.mem).toNat

/-- The bytes the guest sends: as many of the data descriptor as the header says. -/
def payload : List Byte := ((t.pkt.bufBytes t.rx.mem).getD []).take t.len

def taken : List Byte := t.pkt.sentBytes t.answer t.rx.mem

def TakesPayload : Prop :=
  t.len = 0 ∨ ∃ n, t.answer = .ok n ∧ (n = t.len ∨ t.pkt.bufSize = t.len ∧ t.len ≤ n)

end TxPacket

abbrev Sender (M : Type) := StreamConn × Io M

def Sender.step (s : Sender M) (t : TxPacket M) : Option (Sender M) :=
  (s.1.sendmsg t.pkt t.answer { s.2 with toRxSide := t.rx }).map fun (_, c, io) => (c, io)

section Lawful

variable [LawfulGuestMemory M]

theorem Io.push_isSome (io : Io M) (h : io.queue.RingsMapped io.mem) (cid : U64) (rx : MuxerRx) :
    ∃ io', io.push cid rx = some io' := by
  obtain ⟨s, hs⟩ := pushPacket_isSome h cid rx
  exact ⟨_, map_eq_some_iff.mpr ⟨s, hs, rfl⟩⟩

theorem StreamConn.sendmsg_isSome (c : StreamConn) (pkt : VsockPacket) (answer : SendAnswer)
    (io : Io M) (h : io.queue.RingsMapped io.mem) : (c.sendmsg pkt answer io).isSome := by
  unfold sendmsg
  dsimp only
  split_ifs
  · obtain ⟨io', hio⟩ := Io.push_isSome
      { io with sent := io.sent ++ pkt.sentBytes answer io.mem } h c.cid
      (.creditUpdate (pkt.dstPort io.mem) (pkt.srcPort io.mem)
        (c.txCnt + BitVec.ofNat 32 (pkt.sentBytes answer io.mem).length))
    simp only [hio, bind_eq_bind, bind_some, isSome_some]
  · rfl

theorem Sender.step_sent (s : Sender M) (t : TxPacket M) :
    ∃ s', s.step t = some s' ∧ s'.2.sent = s.2.sent ++ t.taken := by
  obtain ⟨⟨update, c, io⟩, hsend⟩ := isSome_iff_exists.mp
    (s.1.sendmsg_isSome t.pkt t.answer { s.2 with toRxSide := t.rx } t.rings)
  refine ⟨(c, io), by unfold step; rw [hsend]; rfl, ?_⟩
  obtain ⟨_, io₁, rfl, rfl | hio⟩ := StreamConn.sendmsg_spec hsend
  · rfl
  · exact (Io.push_logs hio).2.2.1

theorem Sender.run_sent (s : Sender M) (ts : List (TxPacket M)) :
    ∃ s', run Sender.step s ts = some s' ∧ s'.2.sent = s.2.sent ++ ts.flatMap TxPacket.taken := by
  induction ts generalizing s with
  | nil => exact ⟨s, rfl, by simp⟩
  | cons t ts ih =>
    obtain ⟨s₁, hs₁, hsent₁⟩ := s.step_sent t
    obtain ⟨s', hs', hsent'⟩ := ih s₁
    refine ⟨s', by rw [run_cons, hs₁]; exact hs', ?_⟩
    rw [hsent', hsent₁, flatMap_cons, append_assoc]

/-- A socket takes the payload of a packet exactly when it takes as many bytes as the header
says. -/
theorem TxPacket.taken_eq_payload_iff (t : TxPacket M) : t.taken = t.payload ↔ t.TakesPayload := by
  obtain ⟨_, _, ⟨hlen, hbuf⟩ | ⟨hlen, hmax, d, _, hbuf, hsize, hfits⟩⟩ :=
    fromTxVirtqHead_ok t.parsed
  · have h0 : t.len = 0 := by simp [len, hlen]
    have hnone : t.pkt.bufBytes t.rx.mem = none := by simp [bufBytes, hbuf]
    simp [taken, payload, sentBytes, hnone, TakesPayload, h0]
  · have hpos : t.len ≠ 0 := by
      intro h0
      exact hlen (BitVec.eq_of_toNat_eq h0)
    have hcap : t.len < maxRwCount := (BitVec.le_def.mp hmax).trans_lt (by decide)
    have hle : t.len ≤ t.pkt.bufSize := hfits
    have hsome : t.pkt.bufBytes t.rx.mem =
        some (bytesAt t.rx.mem d.addr.toNat t.pkt.bufSize) := by
      simp [bufBytes, hbuf]
    -- both are beginnings of the descriptor, so only their lengths matter
    have htake : ∀ n ≤ t.pkt.bufSize,
        (bytesAt t.rx.mem d.addr.toNat t.pkt.bufSize).take n =
            (bytesAt t.rx.mem d.addr.toNat t.pkt.bufSize).take t.len ↔ n = t.len := by
      intro n hn
      refine ⟨fun h => ?_, fun h => by rw [h]⟩
      have := congrArg List.length h
      simp only [length_take, length_bytesAt] at this
      omega
    unfold taken payload sentBytes TakesPayload
    rw [hsome]
    cases ha : t.answer with
    | error e =>
      simp only [send, Except.map, Except.toOption, getD_none, getD_some]
      rw [htake 0 (by omega)]
      simp [hpos, Ne.symm hpos]
    | ok n =>
      simp only [send, Except.map, Except.toOption, getD_some, length_bytesAt]
      rw [htake _ (by omega)]
      simp only [hpos, false_or, Except.ok.injEq, exists_eq_left']
      omega

/-- **Sending.** After every beginning of a sequence of data packets the socket has got exactly
their payloads, in order, if and only if it takes from each packet as many bytes as the header
says. -/
theorem sent_eq_payloads_iff (c : StreamConn) {io : Io M} (hsent : io.sent = [])
    (ts : List (TxPacket M)) :
    (∀ ts₁, ts₁ <+: ts → ∃ s, run Sender.step (c, io) ts₁ = some s ∧
        s.2.sent = ts₁.flatMap TxPacket.payload) ↔ ∀ t ∈ ts, t.TakesPayload := by
  have hrun : ∀ ts₁ s, run Sender.step (c, io) ts₁ = some s →
      s.2.sent = ts₁.flatMap TxPacket.taken := by
    intro ts₁ s hs
    obtain ⟨s', hs', hsent'⟩ := Sender.run_sent (c, io) ts₁
    cases hs'.symm.trans hs
    rw [hsent', hsent, nil_append]
  constructor
  · intro h t ht
    obtain ⟨ts₁, ts₂, rfl⟩ := append_of_mem ht
    obtain ⟨s₁, hs₁, he₁⟩ := h ts₁ (prefix_append _ _)
    obtain ⟨s₂, hs₂, he₂⟩ := h (ts₁ ++ [t]) ⟨ts₂, by simp⟩
    rw [hrun _ _ hs₁] at he₁
    rw [hrun _ _ hs₂, flatMap_append, flatMap_append, he₁] at he₂
    refine t.taken_eq_payload_iff.mp ?_
    simpa using append_cancel_left he₂
  · intro h ts₁ hpre
    obtain ⟨s, hs, _⟩ := Sender.run_sent (c, io) ts₁
    refine ⟨s, hs, ?_⟩
    rw [hrun _ _ hs, flatMap_def, flatMap_def]
    exact congrArg List.flatten (map_congr_left fun t ht =>
      t.taken_eq_payload_iff.mpr (h t (hpre.subset ht)))

end Lawful

/-! ## The count of the bytes sent -/

/-- Half of `CONN_TX_BUF_SIZE`. -/
abbrev creditStep : U32 := connTxBufSize / 2

/-- A call of `sendmsg`: the RX side as the call finds it, any packet, and how the socket
answers. -/
structure SendmsgCall (M : Type) [GuestMemory M] where
  rx : RxSide M
  rings : rx.queue.RingsMapped rx.mem
  pkt : VsockPacket
  answer : SendAnswer

def SendmsgCall.sent (t : SendmsgCall M) : ℕ := (t.pkt.sentBytes t.answer t.rx.mem).length

def Sender.call (s : Sender M) (t : SendmsgCall M) : Option (Sender M) :=
  (s.1.sendmsg t.pkt t.answer { s.2 with toRxSide := t.rx }).map fun (_, c, io) => (c, io)

/-- The bytes a sequence of calls sends. -/
def totalSent (ts : List (SendmsgCall M)) : ℕ := (ts.map SendmsgCall.sent).sum

/-- From one state to the other a credit update was pushed, and it carries the count. -/
def Sender.Updated (s s' : Sender M) : Prop :=
  ∃ localPort peerPort,
    s'.2.pushed = s.2.pushed ++ [.creditUpdate localPort peerPort s'.1.txCnt]

/-- The bytes counted since the last update. -/
def StreamConn.uncredited (c : StreamConn) : U32 := c.txCnt - c.lastTxCntSent

section Count

variable [LawfulGuestMemory M]

theorem Sender.call_cases (s : Sender M) (t : SendmsgCall M) :
    ∃ s', s.call t = some s' ∧ s'.1.txCnt = s.1.txCnt + BitVec.ofNat 32 t.sent ∧
      (0 < t.sent ∧ creditStep ≤ s'.1.txCnt - s.1.lastTxCntSent ∧
          s'.1.lastTxCntSent = s'.1.txCnt ∧ s.Updated s' ∨
        ¬ (0 < t.sent ∧ creditStep ≤ s'.1.txCnt - s.1.lastTxCntSent) ∧
          s'.1.lastTxCntSent = s.1.lastTxCntSent ∧ s'.2.pushed = s.2.pushed) := by
  obtain ⟨⟨update, c, io⟩, hsend⟩ := isSome_iff_exists.mp
    (s.1.sendmsg_isSome t.pkt t.answer { s.2 with toRxSide := t.rx } t.rings)
  refine ⟨(c, io), by unfold call; rw [hsend]; rfl, ?_⟩
  unfold StreamConn.sendmsg at hsend
  dsimp only at hsend
  split_ifs at hsend with hcredit
  · obtain ⟨io₁, hio, ⟨⟩⟩ := bind_eq_some_iff.mp hsend
    exact ⟨rfl, .inl ⟨hcredit.1, hcredit.2, rfl, _, _, (Io.push_logs hio).1⟩⟩
  · cases hsend
    exact ⟨rfl, .inr ⟨hcredit, rfl, rfl⟩⟩

/-- A count since the last update grows by at most what is sent, and a call leaves it below the
step. -/
theorem Sender.call_uncredited {s s' : Sender M} {t : SendmsgCall M} (h : s.call t = some s') :
    s'.1.uncredited.toNat ≤ s.1.uncredited.toNat + t.sent ∧
      (s.1.uncredited < creditStep → s'.1.uncredited < creditStep) ∧
      (s'.2.pushed ≠ s.2.pushed → s'.1.uncredited = 0 ∧
        creditStep.toNat ≤ s.1.uncredited.toNat + t.sent) := by
  obtain ⟨s₁, hs₁, htx, hcases⟩ := s.call_cases t
  cases hs₁.symm.trans h
  have hgrown : (s'.1.txCnt - s.1.lastTxCntSent).toNat ≤ s.1.uncredited.toNat + t.sent := by
    have hadd : s'.1.txCnt - s.1.lastTxCntSent = s.1.uncredited + BitVec.ofNat 32 t.sent := by
      rw [htx, StreamConn.uncredited]
      bv_omega
    rw [hadd, BitVec.toNat_add, BitVec.toNat_ofNat]
    omega
  rcases hcases with ⟨_, hstep, hlast, hupd⟩ | ⟨hno, hlast, hpushed⟩
  · have hzero : s'.1.uncredited = 0 := by simp [StreamConn.uncredited, hlast]
    rw [hzero]
    exact ⟨by simp, fun _ => by decide, fun _ => ⟨rfl, (BitVec.le_def.mp hstep).trans hgrown⟩⟩
  · rw [show s'.1.uncredited = s'.1.txCnt - s.1.lastTxCntSent from congrArg _ hlast]
    refine ⟨hgrown, fun hlow => ?_, fun hne => absurd hpushed hne⟩
    by_cases hsent : 0 < t.sent
    · exact BitVec.not_le.mp fun hle => hno ⟨hsent, hle⟩
    · rw [htx, Nat.eq_zero_of_not_pos hsent]
      simpa [StreamConn.uncredited] using hlow

theorem Sender.run_uncredited {s s' : Sender M} {ts : List (SendmsgCall M)}
    (h : run Sender.call s ts = some s') :
    s'.1.uncredited.toNat ≤ s.1.uncredited.toNat + totalSent ts := by
  induction ts generalizing s with
  | nil => cases h; exact Nat.le_add_right _ _
  | cons t ts ih =>
    obtain ⟨s₁, hs₁, hrun⟩ := bind_eq_some_iff.mp h
    have := ih hrun
    have := (call_uncredited hs₁).1
    simp only [totalSent, map_cons, sum_cons] at *
    omega

theorem Sender.run_count (s : Sender M) (ts : List (SendmsgCall M)) :
    ∃ s', run Sender.call s ts = some s' ∧
      s'.1.txCnt = s.1.txCnt + BitVec.ofNat 32 (totalSent ts) ∧
      (s.1.uncredited < creditStep → s'.1.uncredited < creditStep) := by
  induction ts generalizing s with
  | nil => exact ⟨s, rfl, by simp [totalSent], id⟩
  | cons t ts ih =>
    obtain ⟨s₁, hs₁, htx₁, _⟩ := s.call_cases t
    obtain ⟨s', hs', htx', hlow'⟩ := ih s₁
    refine ⟨s', by rw [run_cons, hs₁]; exact hs', ?_,
      fun h => hlow' ((call_uncredited hs₁).2.1 h)⟩
    rw [htx', htx₁, BitVec.add_assoc, ← BitVec.ofNat_add]
    rfl

/-- **The count of the bytes sent.** After every sequence of calls on a new connection `tx_cnt` is
the number of bytes sent, and less than half of `CONN_TX_BUF_SIZE` of it is not told to the guest.
The next call pushes nothing or one update with the count; and where two calls push an update, at
least half of `CONN_TX_BUF_SIZE` was sent after the first, up to the second. -/
theorem credit_updates_spaced (c : StreamConn) (hc : c.txCnt = 0 ∧ c.lastTxCntSent = 0) (io : Io M)
    (ts : List (SendmsgCall M)) :
    ∃ s, run Sender.call (c, io) ts = some s ∧
      s.1.txCnt = BitVec.ofNat 32 (totalSent ts) ∧
      s.1.txCnt - s.1.lastTxCntSent < connTxBufSize / 2 ∧
      ∀ t, ∃ s₁, s.call t = some s₁ ∧ (s₁.2.pushed = s.2.pushed ∨ s.Updated s₁) ∧
        ∀ us t' s₂ s₃, run Sender.call s₁ us = some s₂ → s₂.call t' = some s₃ →
          s.Updated s₁ → s₂.Updated s₃ →
            connTxBufSize.toNat / 2 ≤ totalSent (us ++ [t']) := by
  obtain ⟨s, hs, htx, hlow⟩ := Sender.run_count (c, io) ts
  refine ⟨s, hs, by rw [htx, hc.1]; simp,
    hlow (by simp [StreamConn.uncredited, hc]; decide), fun t => ?_⟩
  obtain ⟨s₁, hs₁, _, hcases⟩ := s.call_cases t
  refine ⟨s₁, hs₁, hcases.elim (fun h => .inr h.2.2.2) fun h => .inl h.2.2, ?_⟩
  have hne : ∀ {a b : Sender M}, a.Updated b → b.2.pushed ≠ a.2.pushed := by
    rintro a b ⟨_, _, h⟩ heq
    simp [heq] at h
  intro us t' s₂ s₃ hrun hcall hupd hupd'
  have hzero := (Sender.call_uncredited hs₁).2.2 (hne hupd)
  have hgrown := Sender.run_uncredited hrun
  have hnext := (Sender.call_uncredited hcall).2.2 (hne hupd')
  have hhalf : creditStep.toNat = connTxBufSize.toNat / 2 := rfl
  rw [hzero.1, show (0 : U32).toNat = 0 from rfl] at hgrown
  simp only [totalSent, map_append, sum_append, map_cons, map_nil, sum_cons, sum_nil] at hgrown ⊢
  omega

end Count

/-! A chain of a header and a descriptor of 8 bytes of data. -/

/-- `smallMemory` with the chain in entries 0 and 1 of the table, and a header of the given
length. -/
def txMemory (len : U32) : FlatMemory :=
  ((((smallMemory.put 0 (Descriptor.toBytes ⟨0x100, 44, virtqDescFNext, 1⟩)).put 16
    (Descriptor.toBytes ⟨0x140, 8, 0, 0⟩)).put 0x118 (leBytes 4 len.toNat)).put 0x11e
    (leBytes 2 vsockOpRw.toNat)).put 0x140 [1, 2, 3, 4, 5, 6, 7, 8]

def txHead : DescriptorChain := ⟨0, 4, 4, 0, 0x100, 44, virtqDescFNext, 1⟩

theorem smallQueue_rings_txMemory (len : U32) : smallQueue.RingsMapped (txMemory len) :=
  smallQueue_rings.congr (.refl _) fun _ => rfl

/-- A packet of all 8 bytes, of which the socket takes `n`. -/
def txWhole (n : ℕ) : TxPacket FlatMemory where
  rx := ⟨smallQueue, txMemory 8, .new⟩
  rings := smallQueue_rings_txMemory 8
  head := txHead
  pkt := ⟨0x100, some 0x140, 8⟩
  parsed := by decide +kernel
  op := by decide +kernel
  answer := .ok n

/-- A packet of the first 4 of them, to a socket that takes all it is given. -/
def txPart : TxPacket FlatMemory where
  rx := ⟨smallQueue, txMemory 4, .new⟩
  rings := smallQueue_rings_txMemory 4
  head := txHead
  pkt := ⟨0x100, some 0x140, 8⟩
  parsed := by decide +kernel
  op := by decide +kernel
  answer := .ok 8

def txSender : Sender FlatMemory :=
  ((TcpProxy.new 1 3 1024 2048 1025 7).conn, .start ⟨smallQueue, txMemory 8, .new⟩)

theorem txWhole_sent :
    ∃ s, run Sender.step txSender [txWhole 8, txWhole 20] = some s ∧
      s.2.sent = [txWhole 8, txWhole 20].flatMap TxPacket.payload := by
  have hlen : ∀ n, (txWhole n).len = 8 := fun n => by
    show (len ⟨0x100, some 0x140, 8⟩ (txMemory 8)).toNat = 8
    decide +kernel
  refine (sent_eq_payloads_iff txSender.1 rfl [txWhole 8, txWhole 20]).mpr ?_ _
    (prefix_refl _)
  intro t ht
  simp only [mem_cons, not_mem_nil, or_false] at ht
  rcases ht with rfl | rfl
  · exact .inr ⟨8, rfl, .inl (hlen 8).symm⟩
  · exact .inr ⟨20, rfl, .inr ⟨(hlen 20).symm, (hlen 20).trans_le (by decide)⟩⟩

/-- The header says 4 bytes and 8 are sent; the header says 8 bytes, the socket takes 3, and the
others are never sent. -/
theorem txPart_oversent :
    txPart.payload = [1, 2, 3, 4] ∧
      ((run Sender.step txSender [txPart]).map fun s => s.2.sent) =
        some [1, 2, 3, 4, 5, 6, 7, 8] ∧
      (txWhole 3).payload = [1, 2, 3, 4, 5, 6, 7, 8] ∧
      ((run Sender.step txSender [txWhole 3]).map fun s => s.2.sent) = some [1, 2, 3] := by
  decide +kernel

theorem credit_updates_spaced_new :
    ∃ s, run Sender.call txSender [⟨⟨smallQueue, txMemory 8, .new⟩, smallQueue_rings_txMemory 8,
        ⟨0x100, some 0x140, 8⟩, .ok 5⟩] = some s ∧ s.1.txCnt = 5 := by
  obtain ⟨s, hs, htx, _⟩ := credit_updates_spaced txSender.1 ⟨rfl, rfl⟩ txSender.2
    [⟨⟨smallQueue, txMemory 8, .new⟩, smallQueue_rings_txMemory 8, ⟨0x100, some 0x140, 8⟩, .ok 5⟩]
  exact ⟨s, hs, htx.trans (by decide +kernel)⟩

end Shelter.Vsock
