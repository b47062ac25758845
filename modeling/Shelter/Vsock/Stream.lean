import Shelter.Vsock.Proxy

/-!
# Stream proxies

`tcp.rs` and `unix.rs` hold the same connection twice. `StreamConn` is that connection: its
ports, its status and the counters of the credit scheme, with the functions the two files share.
A `TcpProxy` adds what listening needs; in `UnixProxy` those calls are `todo!()`, which the model
renders as a panic, `none`.
-/

open Bytes

namespace Shelter.Vsock

open Virtio Option

variable {M : Type} [GuestMemory M]

/-- The connection of a stream proxy. Counters wrap. -/
structure StreamConn where
  id : U64
  cid : U64
  localPort : U32
  peerPort : U32
  controlPort : U32
  fd : ℕ
  status : ProxyStatus
  rxCnt : U32
  txCnt : U32
  lastTxCntSent : U32
  peerBufAlloc : U32
  peerFwdCnt : U32
  pushCnt : U32
  deriving DecidableEq, Repr

namespace StreamConn

/-! ## Receiving -/

variable (c : StreamConn)

def inFlight : U32 := c.rxCnt - c.peerFwdCnt

def peerAvailCredit : ℕ := (c.peerBufAlloc - (c.rxCnt - c.peerFwdCnt)).toNat

variable (pkt : VsockPacket)

def initDataPkt (m : M) : M :=
  m |> pkt.setOp vsockOpRw |> pkt.setSrcCid vsockHostCid |> pkt.setDstCid c.cid
    |> pkt.setSrcPort c.localPort |> pkt.setDstPort c.peerPort |> pkt.setType vsockTypeStream
    |> pkt.setBufAlloc connTxBufSize |> pkt.setFwdCnt c.txCnt

def recvToPkt (answer : RecvAnswer) (io : Io M) : RecvPkt × Io M :=
  match pkt.buf with
  | some buf =>
    let maxLen := min pkt.bufSize c.peerAvailCredit
    if maxLen = 0 then (.waitForCredit, io) else recvInto buf maxLen answer io
  | none => (.error, io)

def fill (head : DescriptorChain) (answer : RecvAnswer) (io : Io M) : HeadResult StreamConn M :=
  match VsockPacket.fromRxVirtqHead head io.mem with
  | .error _ => .undo false c io
  | .ok pkt =>
    match c.recvToPkt pkt answer io with
    | (.waitForCredit, io) => .undo true c io
    | (.read cnt, io) =>
      let c := { c with rxCnt := c.rxCnt + BitVec.ofNat 32 cnt }
      let mem := io.mem |> c.initDataPkt pkt |> pkt.setLen (BitVec.ofNat 32 cnt)
      .used (vsockPktHdrSize + cnt) pkt c { io with mem }
    | (.close, io) => .undo false { c with status := .closed } io
    | (.error, io) => .undo false c io

variable {c c' : StreamConn} {head : DescriptorChain} {answer : RecvAnswer} {io io' : Io M}

theorem fill_undo {wait : Bool} (h : c.fill head answer io = .undo wait c' io') :
    io' = io ∧ (c' = c ∨ wait = false ∧ c' = { c with status := .closed }) := by
  unfold fill at h
  split at h
  · cases h
    exact ⟨rfl, .inl rfl⟩
  · next pkt hpkt =>
    unfold recvToPkt recvInto at h
    grind

theorem fill_used {len : ℕ} {pkt : VsockPacket} (h : c.fill head answer io = .used len pkt c' io') :
    ∃ buf bs, VsockPacket.fromRxVirtqHead head io.mem = .ok pkt ∧ pkt.buf = some buf ∧
      0 < bs.length ∧ bs.length ≤ pkt.bufSize ∧ bs.length ≤ c.peerAvailCredit ∧
      bs.length ≤ maxRwCount ∧ len = vsockPktHdrSize + bs.length ∧
      c' = { c with rxCnt := c.rxCnt + BitVec.ofNat 32 bs.length } ∧
      io' = { io with
        mem := (writeSlice io.mem buf bs).1 |> c'.initDataPkt pkt
          |> pkt.setLen (BitVec.ofNat 32 bs.length)
        received := io.received ++ bs } := by
  unfold fill at h
  split at h
  · simp at h
  · next pkt' hpkt =>
    split at h
    · simp at h
    · next cnt io₁ hrecv =>
      obtain ⟨rfl, rfl, rfl, rfl⟩ := h
      unfold recvToPkt at hrecv
      split at hrecv
      · next buf hbuf =>
        dsimp only at hrecv
        split_ifs at hrecv with hmax
        · simp at hrecv
        · obtain ⟨bs, rfl, hpos, hle, hrw, rfl⟩ := recvInto_read hrecv
          exact ⟨buf, bs, hpkt, hbuf, hpos, by omega, by omega, hrw, rfl, rfl, rfl⟩
      · simp at hrecv
    · simp at h
    · simp at h

def receiver : Receiver StreamConn M where
  fill := fill
  count c len := { c with pushCnt := c.pushCnt + BitVec.ofNat 32 len }
  credit c := (c.inFlight, c.peerBufAlloc)

def recvPkt (c : StreamConn) (answers : List RecvAnswer) (io : Io M) :
    Option (Bool × Bool × StreamConn × Io M) :=
  receiver.recvLoop answers false c io

/-! ## Messages to the guest -/

def pushConnectRsp (c : StreamConn) (result : U32) (io : Io M) : Option (Io M) :=
  io.push c.cid (.connResponse 1025 c.controlPort result)

def pushReset (c : StreamConn) (io : Io M) : Option (Io M) :=
  io.push c.cid (.reset c.localPort c.peerPort)

/-! ## Calls -/

def switchToConnected (c : StreamConn) : StreamConn := { c with status := .connected }

/-- The end of `connect`: unless the connection is still being made, the guest is answered. -/
def connectAnswered (c : StreamConn) (result : U32) (io : Io M) :
    Option (ProxyUpdate × StreamConn × Io M) :=
  if c.status = .connecting then some ({ polling := some (c.id, c.fd, .inOut) }, c, io)
  else
    let polling := if c.status = .connected then some (c.id, c.fd, EventSet.IN) else none
    (c.pushConnectRsp result io).map fun io => ({ polling }, c, io)

def connect (c : StreamConn) (answer : ConnectAnswer) (io : Io M) :
    Option (ProxyUpdate × StreamConn × Io M) :=
  match answer with
  | .ok => c.switchToConnected.connectAnswered 0 io
  | .inProgress => connectAnswered { c with status := .connecting } 0 io
  | .err e => c.connectAnswered e.neg io

def setPeerCredit (c : StreamConn) (pkt : VsockPacket) (m : M) : StreamConn :=
  { c with peerBufAlloc := pkt.bufAlloc m, peerFwdCnt := pkt.fwdCnt m }

def confirmConnect (c : StreamConn) (pkt : VsockPacket) (io : Io M) :
    Option (StreamConn × Io M) := do
  let c := { c.setPeerCredit pkt io.mem with
    localPort := pkt.dstPort io.mem, peerPort := pkt.srcPort io.mem }
  let io ← io.push c.cid (.opResponse (pkt.dstPort io.mem) (pkt.srcPort io.mem))
  some (c, io)

/-- Send the buffer of a packet, all of it, to the socket. The bytes that the socket does not
take are not sent again. -/
def sendmsg (c : StreamConn) (pkt : VsockPacket) (answer : SendAnswer) (io : Io M) :
    Option (ProxyUpdate × StreamConn × Io M) :=
  let bytes := pkt.sentBytes answer io.mem
  let c := { c with txCnt := c.txCnt + BitVec.ofNat 32 bytes.length }
  let io := { io with sent := io.sent ++ bytes }
  if 0 < bytes.length ∧ connTxBufSize / 2 ≤ c.txCnt - c.lastTxCntSent then do
    let c := { c with lastTxCntSent := c.txCnt }
    let io ← io.push c.cid (.creditUpdate (pkt.dstPort io.mem) (pkt.srcPort io.mem) c.txCnt)
    some ({ signalQueue := true }, c, io)
  else some ({}, c, io)

def updatePeerCredit (c : StreamConn) (pkt : VsockPacket) (m : M) : ProxyUpdate × StreamConn :=
  let c := { c.setPeerCredit pkt m with status := .connected }
  ({ polling := some (c.id, c.fd, .IN) }, c)

inductive Shutdown
  | both | read | write
  deriving DecidableEq, Repr

def shutdownHow (m : M) : Shutdown :=
  let recvOff := pkt.flags m &&& vsockFlagsShutdownRcv != 0
  let sendOff := pkt.flags m &&& vsockFlagsShutdownSend != 0
  if recvOff && sendOff then .both else if recvOff then .read else .write

def release (c : StreamConn) : ProxyUpdate := { removeProxy := removalOf c.status }

/-! ## Events of the socket -/

/-- The peer hung up. The status is `closed` by the time the kind of removal is chosen. -/
def eventHangUp (c : StreamConn) (io : Io M) : Option (ProxyUpdate × StreamConn × Io M) :=
  let told := if c.status = .connecting then c.pushConnectRsp econnrefused.neg io
    else c.pushReset io
  told.map fun io =>
    let c := { c with status := .closed }
    let update : ProxyUpdate :=
      { signalQueue := true, removeProxy := removalOf c.status,
        polling := some (c.id, c.fd, .empty) }
    (update, c, io)

def afterRecv (c : StreamConn) (signalQueue waitCredit : Bool) (io : Io M) :
    Option (Bool × ProxyUpdate × StreamConn × Io M) :=
  if waitCredit ∧ c.status ≠ .waitingCreditUpdate then
    let c := { c with status := .waitingCreditUpdate }
    let update : ProxyUpdate :=
      { signalQueue, polling := some (c.id, c.fd, .empty),
        pushCreditReq := some (.creditRequest c.localPort c.peerPort c.txCnt) }
    some (false, update, c, io)
  else if c.status = .closed then
    (c.pushReset io).map fun io =>
      (true, { signalQueue := true, polling := some (c.id, c.fd, .empty) }, c, io)
  else if c.status = .waitingCreditUpdate then
    some (false, { signalQueue, polling := some (c.id, c.fd, .empty) }, c, io)
  else some (false, { signalQueue }, c, io)

def eventData (c : StreamConn) (answers : List RecvAnswer) (io : Io M) :
    Option (Bool × ProxyUpdate × StreamConn × Io M) :=
  (c.recvPkt answers io).bind fun (haveUsed, waitCredit, c, io) =>
    c.afterRecv haveUsed waitCredit io

/-- The socket is readable. The first result tells that the event has been dealt with. -/
def eventIn (c : StreamConn) (answers : List RecvAnswer) (accepted : Except Errno ℕ) (io : Io M) :
    Option (Bool × ProxyUpdate × StreamConn × Io M) :=
  if c.status = .connected then c.eventData answers io
  else if c.status = .listening ∨ c.status = .waitingOnAccept then
    let newProxy := accepted.toOption.map fun fd => (c.peerPort, fd)
    some (true, { signalQueue := true, newProxy }, c, io)
  else some (false, {}, c, io)

def eventOut (update : ProxyUpdate) (c : StreamConn) (io : Io M) :
    Option (ProxyUpdate × StreamConn × Io M) :=
  if c.status = .connecting then do
    let c := c.switchToConnected
    let io ← c.pushConnectRsp 0 io
    some ({ update with signalQueue := true, polling := some (c.id, c.fd, .IN) }, c, io)
  else some (update, c, io)

def processEvent (c : StreamConn) (evset : EventSet) (answers : List RecvAnswer)
    (accepted : Except Errno ℕ) (io : Io M) : Option (ProxyUpdate × StreamConn × Io M) :=
  if evset.hangUp then c.eventHangUp io
  else
    let afterIn := if evset.inp then c.eventIn answers accepted io else some (false, {}, c, io)
    afterIn.bind fun (done, update, c, io) =>
      if !done && evset.out then c.eventOut update io else some (update, c, io)

/-! ## What the calls do -/

section Specs

variable {c c' : StreamConn} {io io' : Io M} {update : ProxyUpdate}

/-- The status after a call of `connect`. -/
def statusAfterConnect (status : ProxyStatus) : ConnectAnswer → ProxyStatus
  | .ok => .connected
  | .inProgress => .connecting
  | .err _ => status

theorem connectAnswered_spec {result : U32}
    (h : c.connectAnswered result io = some (update, c', io')) :
    c' = c ∧ (io' = io ∨ c.pushConnectRsp result io = some io') := by
  unfold connectAnswered at h
  split at h
  · cases h
    exact ⟨rfl, .inl rfl⟩
  · obtain ⟨io₁, hio, ⟨⟩⟩ := map_eq_some_iff.mp h
    exact ⟨rfl, .inr hio⟩

theorem connect_spec {answer : ConnectAnswer} (h : c.connect answer io = some (update, c', io')) :
    c' = { c with status := statusAfterConnect c.status answer } ∧
      (io' = io ∨ ∃ result, c'.pushConnectRsp result io = some io') := by
  cases answer with
  | ok | inProgress | err _ =>
    obtain ⟨rfl, hio | hio⟩ := connectAnswered_spec h
    · exact ⟨rfl, .inl hio⟩
    · exact ⟨rfl, .inr ⟨_, hio⟩⟩

variable {pkt : VsockPacket} {answers : List RecvAnswer} {haveUsed wait done : Bool}

theorem confirmConnect_spec (h : c.confirmConnect pkt io = some (c', io')) :
    c' = { c.setPeerCredit pkt io.mem with
        localPort := pkt.dstPort io.mem, peerPort := pkt.srcPort io.mem } ∧
      io.push c.cid (.opResponse (pkt.dstPort io.mem) (pkt.srcPort io.mem)) = some io' := by
  obtain ⟨io₁, hio, ⟨⟩⟩ := bind_eq_some_iff.mp h
  exact ⟨rfl, hio⟩

theorem sendmsg_spec {answer : SendAnswer} (h : c.sendmsg pkt answer io = some (update, c', io')) :
    (∃ last, c' = { c with
        txCnt := c.txCnt + BitVec.ofNat 32 (pkt.sentBytes answer io.mem).length
        lastTxCntSent := last }) ∧
      ∃ io₁, io₁ = { io with sent := io.sent ++ pkt.sentBytes answer io.mem } ∧
        (io' = io₁ ∨
          io₁.push c.cid (.creditUpdate (pkt.dstPort io.mem) (pkt.srcPort io.mem) c'.txCnt) =
            some io') := by
  unfold sendmsg at h
  dsimp only at h
  split_ifs at h
  · obtain ⟨io₁, hio, ⟨⟩⟩ := bind_eq_some_iff.mp h
    exact ⟨⟨_, rfl⟩, _, rfl, .inr hio⟩
  · cases h
    exact ⟨⟨_, rfl⟩, _, rfl, .inl rfl⟩

/-- What the receive loop changes of a connection. -/
structure Received (c c' : StreamConn) : Prop where
  keeps : c' = { c with rxCnt := c'.rxCnt, pushCnt := c'.pushCnt, status := c'.status }
  status : c'.status = c.status ∨ c'.status = .closed

theorem Received.refl (c : StreamConn) : Received c c := ⟨rfl, .inl rfl⟩

theorem recvPkt_received (h : c.recvPkt answers io = some (haveUsed, wait, c', io')) :
    Received c c' ∧ (wait = true → c'.status = c.status) ∧ io'.pushed = io.pushed ∧
      io'.sent = io.sent := by
  refine Receiver.recvLoop_rule
    (J := fun wait c' io' => Received c c' ∧ (wait = true → c'.status = c.status) ∧
      io'.pushed = io.pushed ∧ io'.sent = io.sent)
    (I := fun c' io' => Received c c' ∧ c'.status = c.status ∧
      io'.pushed = io.pushed ∧ io'.sent = io.sent) ?_ ?_ ?_ ⟨.refl c, rfl, rfl, rfl⟩
    (receiver.loopAlong_true answers c io) h
  · rintro c₁ io₁ ⟨hr, hs, hp, hsent⟩
    exact ⟨hr, by simp, hp, hsent⟩
  · rintro answer c₁ io₁ wait c₂ io₂ ⟨hr, hs, hp, hsent⟩ _ hturn
    obtain ⟨q, _, rfl, rfl, rfl⟩ | ⟨head, q, io₃, _, hfill, rfl⟩ := Receiver.turn_stop hturn
    · exact ⟨hr, by simp, hp, hsent⟩
    · obtain ⟨rfl, rfl | ⟨rfl, rfl⟩⟩ := fill_undo hfill
      · exact ⟨hr, fun _ => hs, hp, hsent⟩
      · refine ⟨⟨?_, .inr rfl⟩, by simp, hp, hsent⟩
        rw [hr.keeps]
  · rintro answer c₁ io₁ c₂ io₂ ⟨hr, hs, hp, hsent⟩ _ hturn
    obtain ⟨head, q, len, pkt, c₃, io₃, _, hfill, hplace⟩ := Receiver.turn_next hturn
    obtain ⟨buf, bs, _, _, _, _, _, _, _, rfl, rfl⟩ := fill_used hfill
    cases hplace
    refine ⟨⟨?_, .inl hs⟩, hs, hp, hsent⟩
    rw [hr.keeps]
    rfl

theorem eventHangUp_spec (h : c.eventHangUp io = some (update, c', io')) :
    c' = { c with status := .closed } ∧
      ((∃ r, c.pushConnectRsp r io = some io') ∨ c.pushReset io = some io') := by
  obtain ⟨io₁, hio, ⟨⟩⟩ := map_eq_some_iff.mp h
  refine ⟨rfl, ?_⟩
  split_ifs at hio
  · exact .inl ⟨_, hio⟩
  · exact .inr hio

theorem afterRecv_spec (hw : wait = true → c.status = .connected)
    (h : c.afterRecv haveUsed wait io = some (done, update, c', io')) :
    c' = { c with status := if wait then .waitingCreditUpdate else c.status } ∧
      (io' = io ∧ c'.status ≠ .closed ∨ c'.status = .closed ∧ c'.pushReset io = some io') := by
  unfold afterRecv at h
  cases wait with
  | true =>
    rw [if_pos ⟨rfl, by rw [hw rfl]; decide⟩] at h
    cases h
    exact ⟨rfl, .inl ⟨rfl, by simp⟩⟩
  | false =>
    simp only [Bool.false_eq_true, false_and, if_false] at h ⊢
    split_ifs at h with hcl hwc
    · obtain ⟨io₁, hio, ⟨⟩⟩ := map_eq_some_iff.mp h
      exact ⟨rfl, .inr ⟨hcl, hio⟩⟩
    all_goals
      cases h
      exact ⟨rfl, .inl ⟨rfl, hcl⟩⟩

theorem eventData_spec (hs : c.status = .connected)
    (h : c.eventData answers io = some (done, update, c', io')) :
    c'.status ≠ .connecting ∧
      ∃ haveUsed wait c₁ io₁, c.recvPkt answers io = some (haveUsed, wait, c₁, io₁) ∧
        c' = { c₁ with status := if wait then .waitingCreditUpdate else c₁.status } ∧
        (io' = io₁ ∧ c'.status ≠ .closed ∨ c'.status = .closed ∧ c'.pushReset io₁ = some io') := by
  obtain ⟨⟨haveUsed, wait, c₁, io₁⟩, hrecv, hafter⟩ := bind_eq_some_iff.mp h
  obtain ⟨hr, hw, _⟩ := recvPkt_received hrecv
  obtain ⟨rfl, hio⟩ := afterRecv_spec (fun h => (hw h).trans hs) hafter
  refine ⟨?_, haveUsed, wait, c₁, io₁, hrecv, rfl, hio⟩
  cases wait with
  | true => simp
  | false =>
    show c₁.status ≠ _
    rcases hr.status with he | he <;> simp [he, hs]

theorem eventOut_spec {update₀ : ProxyUpdate} (h : c.eventOut update₀ io = some (update, c', io')) :
    (c.status = .connecting ∧ c' = { c with status := .connected } ∧
      c.pushConnectRsp 0 io = some io') ∨
    (c.status ≠ .connecting ∧ c' = c ∧ io' = io) := by
  unfold eventOut at h
  split_ifs at h with hs
  · obtain ⟨io₁, hio, ⟨⟩⟩ := bind_eq_some_iff.mp h
    exact .inl ⟨hs, rfl, hio⟩
  · cases h
    exact .inr ⟨hs, rfl, rfl⟩

theorem processEvent_cases {evset : EventSet} {accepted : Except Errno ℕ}
    (h : c.processEvent evset answers accepted io = some (update, c', io')) :
    (evset.hangUp = true ∧ c' = { c with status := .closed } ∧
      ((∃ r, c.pushConnectRsp r io = some io') ∨ c.pushReset io = some io')) ∨
    (evset.hangUp = false ∧ evset.inp = true ∧ c.status = .connected ∧
      ∃ haveUsed wait c₁ io₁, c.recvPkt answers io = some (haveUsed, wait, c₁, io₁) ∧
        c' = { c₁ with status := if wait then .waitingCreditUpdate else c₁.status } ∧
        (io' = io₁ ∧ c'.status ≠ .closed ∨ c'.status = .closed ∧ c'.pushReset io₁ = some io')) ∨
    (evset.hangUp = false ∧ evset.out = true ∧ c.status = .connecting ∧
      c' = { c with status := .connected } ∧ c.pushConnectRsp 0 io = some io') ∨
    (evset.hangUp = false ∧ c' = c ∧ io' = io) := by
  unfold processEvent at h
  by_cases hup : evset.hangUp = true
  · rw [if_pos hup] at h
    exact .inl ⟨hup, eventHangUp_spec h⟩
  rw [if_neg hup, bind_eq_some_iff] at h
  have hup : evset.hangUp = false := by simpa using hup
  obtain ⟨⟨done, update₁, c₁, io₁⟩, hin, h⟩ := h
  -- writability matters only while the connection is being made
  have hout : (c' = c₁ ∧ io' = io₁) ∨ (evset.out = true ∧ c₁.status = .connecting ∧
      c' = { c₁ with status := .connected } ∧ c₁.pushConnectRsp 0 io₁ = some io') := by
    dsimp only at h
    split_ifs at h with ho
    · obtain ⟨hc, rfl, hio⟩ | ⟨_, rfl, rfl⟩ := eventOut_spec h
      · exact .inr ⟨(Bool.and_eq_true_iff.mp ho).2, hc, rfl, hio⟩
      · exact .inl ⟨rfl, rfl⟩
    · cases h
      exact .inl ⟨rfl, rfl⟩
  split_ifs at hin with hi
  · unfold eventIn at hin
    split_ifs at hin with hs hl
    · obtain ⟨hne, hdata⟩ := eventData_spec hs hin
      rcases hout with ⟨rfl, rfl⟩ | ⟨_, hc, _⟩
      · exact .inr (.inl ⟨hup, hi, hs, hdata⟩)
      · exact absurd hc hne
    all_goals
      cases hin
      exact .inr (.inr (hout.symm.imp (And.intro hup) (And.intro hup)))
  · cases hin
    exact .inr (.inr (hout.symm.imp (And.intro hup) (And.intro hup)))

end Specs

end StreamConn

end Shelter.Vsock
