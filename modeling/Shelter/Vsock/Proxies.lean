import Shelter.Vsock.Stream

/-!
# The three kinds of proxies

`ProxyCall` lists the calls of the `Proxy` trait, each with the answers the kernel gives to the
system calls it makes. `TcpProxy.call`, `UnixProxy.call` and `UdpProxy.call` are the three
implementations and `Proxy.call` is the dynamic dispatch. A result `none` is a panic.
-/

open Bytes

namespace Shelter.Vsock

open Virtio Option

variable {M : Type} [GuestMemory M]

/-- The calls of the `Proxy` trait that act on a proxy. -/
inductive ProxyCall
  | connect (pkt : VsockPacket) (req : TsiConnectReq) (answer : ConnectAnswer)
  | confirmConnect (pkt : VsockPacket)
  | getpeername (pkt : VsockPacket) (answer : Except Errno (Ipv4Addr × U16))
  | sendmsg (pkt : VsockPacket) (answer : SendAnswer)
  | sendtoAddr (req : TsiSendtoAddr) (bind : Except Errno Unit)
  | sendtoData (pkt : VsockPacket) (answer : SendAnswer)
  | listen (pkt : VsockPacket) (req : TsiListenReq) (hostPortMap : Option (List (U16 × U16)))
      (bind listen : Except Errno Unit)
  | accept (req : TsiAcceptReq)
  | updatePeerCredit (pkt : VsockPacket)
  | pushOpRequest
  | processOpResponse (pkt : VsockPacket)
  | enqueueAccept
  | shutdown (pkt : VsockPacket)
  | release
  | processEvent (evset : EventSet) (answers : List RecvAnswer) (accepted : Except Errno ℕ)

/-! ## TCP -/

structure TcpProxy where
  conn : StreamConn
  parentId : U64
  pendingAccepts : ℕ
  deriving DecidableEq, Repr

namespace TcpProxy

def new (id cid : U64) (localPort peerPort controlPort : U32) (fd : ℕ) : TcpProxy where
  conn := ⟨id, cid, localPort, peerPort, controlPort, fd, .idle, 0, 0, 0, 0, 0, 0⟩
  parentId := 0
  pendingAccepts := 0

def newReverse (id cid parentId : U64) (localPort peerPort : U32) (fd : ℕ) : TcpProxy where
  conn := ⟨id, cid, localPort, peerPort, 0, fd, .reverseInit, 0, 0, 0, 0, 0, 0⟩
  parentId := parentId
  pendingAccepts := 0

variable (p : TcpProxy)

def tryListen (req : TsiListenReq) (hostPortMap : Option (List (U16 × U16)))
    (bind listen : Except Errno Unit) : U32 :=
  if p.conn.status = .listening ∨ p.conn.status = .waitingOnAccept then 0
  else
    match hostPortMap.map fun portMap => portMap.lookup req.port with
    | some none => eperm.neg
    | _ =>
      match bind with
      | .error e => e.neg
      | .ok () =>
        match listen with
        | .error e => e.neg
        | .ok () => 0

variable (pkt : VsockPacket)

def getpeername (answer : Except Errno (Ipv4Addr × U16)) (io : Io M) : Option (Io M) :=
  let data : TsiGetnameRsp := match answer with
    | .ok (addr, port) => ⟨addr, port, 0⟩
    | .error e => ⟨⟨Vector.replicate 4 0⟩, 0, e.neg⟩
  io.push p.conn.cid (.getnameResponse (pkt.dstPort io.mem) (pkt.srcPort io.mem) data)

def listen (req : TsiListenReq) (hostPortMap : Option (List (U16 × U16)))
    (bind listen : Except Errno Unit) (io : Io M) : Option (ProxyUpdate × TcpProxy × Io M) := do
  let result := p.tryListen req hostPortMap bind listen
  let io ← io.push p.conn.cid (.listenResponse (pkt.dstPort io.mem) (pkt.srcPort io.mem) result)
  if result = 0 then
    let conn := { p.conn with peerPort := req.vmPort, status := .listening }
    some ({ polling := some (conn.id, conn.fd, .IN) }, { p with conn }, io)
  else some ({}, p, io)

def pushAcceptRsp (result : U32) (io : Io M) : Option (Io M) :=
  io.push p.conn.cid (.acceptResponse 1030 p.conn.controlPort result)

/-- A blocking request without a pending connection is remembered in the status only. -/
def accept (req : TsiAcceptReq) (io : Io M) : Option (ProxyUpdate × TcpProxy × Io M) :=
  if 0 < p.pendingAccepts then do
    let p := { p with pendingAccepts := p.pendingAccepts - 1 }
    let io ← p.pushAcceptRsp 0 io
    some ({ signalQueue := true }, p, io)
  else if req.flags &&& oNonblock ≠ 0 then do
    let io ← p.pushAcceptRsp ewouldblock.neg io
    some ({ signalQueue := true }, p, io)
  else some ({}, { p with conn := { p.conn with status := .waitingOnAccept } }, io)

def pushOpRequest (io : Io M) : Option (Io M) :=
  io.push p.conn.cid (.opRequest p.conn.localPort p.conn.peerPort)

def processOpResponse (m : M) : ProxyUpdate × TcpProxy :=
  let conn := (p.conn.setPeerCredit pkt m).switchToConnected
  let update : ProxyUpdate :=
    { polling := some (conn.id, conn.fd, .IN), pushAccept := some (conn.id, p.parentId) }
  (update, { p with conn })

def enqueueAccept (io : Io M) : Option (TcpProxy × Io M) :=
  if p.conn.status = .waitingOnAccept then do
    let p := { p with conn := { p.conn with status := .listening } }
    let io ← p.pushAcceptRsp 0 io
    some (p, io)
  else some ({ p with pendingAccepts := p.pendingAccepts + 1 }, io)

def onConn (r : Option (ProxyUpdate × StreamConn × Io M)) :
    Option (ProxyUpdate × TcpProxy × Io M) :=
  r.map fun (update, conn, io) => (update, { p with conn }, io)

def call (c : ProxyCall) (io : Io M) : Option (ProxyUpdate × TcpProxy × Io M) :=
  match c with
  | .connect _ _ answer => p.onConn (p.conn.connect answer io)
  | .confirmConnect pkt =>
    (p.conn.confirmConnect pkt io).map fun (conn, io) => ({}, { p with conn }, io)
  | .getpeername pkt answer => (p.getpeername pkt answer io).map fun io => ({}, p, io)
  | .sendmsg pkt answer => p.onConn (p.conn.sendmsg pkt answer io)
  | .sendtoAddr _ _ => some ({}, p, io)
  | .sendtoData _ _ => some ({}, p, io)
  | .listen pkt req hostPortMap bind listen => p.listen pkt req hostPortMap bind listen io
  | .accept req => p.accept req io
  | .updatePeerCredit pkt =>
    let (update, conn) := p.conn.updatePeerCredit pkt io.mem
    some (update, { p with conn }, io)
  | .pushOpRequest => (p.pushOpRequest io).map fun io => ({}, p, io)
  | .processOpResponse pkt =>
    let (update, p) := p.processOpResponse pkt io.mem
    some (update, p, io)
  | .enqueueAccept => (p.enqueueAccept io).map fun (p, io) => ({}, p, io)
  | .shutdown _ => some ({}, p, io)
  | .release => some (p.conn.release, p, io)
  | .processEvent evset answers accepted =>
    p.onConn (p.conn.processEvent evset answers accepted io)

section Specs

variable {p p' : TcpProxy} {io io' : Io M} {update : ProxyUpdate}

theorem listen_spec {pkt : VsockPacket} {req : TsiListenReq}
    {hostPortMap : Option (List (U16 × U16))} {bind listen : Except Errno Unit}
    (h : p.listen pkt req hostPortMap bind listen io = some (update, p', io')) :
    io.push p.conn.cid (.listenResponse (pkt.dstPort io.mem) (pkt.srcPort io.mem)
        (p.tryListen req hostPortMap bind listen)) = some io' ∧
      (p.tryListen req hostPortMap bind listen = 0 ∧
          p' = { p with conn := { p.conn with peerPort := req.vmPort, status := .listening } } ∨
        p.tryListen req hostPortMap bind listen ≠ 0 ∧ p' = p) := by
  obtain ⟨io₁, hio, h⟩ := bind_eq_some_iff.mp h
  split_ifs at h with h0 <;> cases h
  · exact ⟨hio, .inl ⟨h0, rfl⟩⟩
  · exact ⟨hio, .inr ⟨h0, rfl⟩⟩

theorem accept_spec {req : TsiAcceptReq} (h : p.accept req io = some (update, p', io')) :
    (0 < p.pendingAccepts ∧ p' = { p with pendingAccepts := p.pendingAccepts - 1 } ∧
      p.pushAcceptRsp 0 io = some io') ∨
    (p.pendingAccepts = 0 ∧ req.flags &&& oNonblock ≠ 0 ∧ p' = p ∧
      p.pushAcceptRsp ewouldblock.neg io = some io') ∨
    (p.pendingAccepts = 0 ∧ req.flags &&& oNonblock = 0 ∧
      p' = { p with conn := { p.conn with status := .waitingOnAccept } } ∧ io' = io) := by
  unfold TcpProxy.accept at h
  split_ifs at h with hpos hblock
  · obtain ⟨io₁, hio, ⟨⟩⟩ := bind_eq_some_iff.mp h
    exact .inl ⟨hpos, rfl, hio⟩
  · obtain ⟨io₁, hio, ⟨⟩⟩ := bind_eq_some_iff.mp h
    exact .inr (.inl ⟨by omega, hblock, rfl, hio⟩)
  · cases h
    exact .inr (.inr ⟨by omega, by simpa using hblock, rfl, rfl⟩)

theorem enqueueAccept_spec (h : p.enqueueAccept io = some (p', io')) :
    (p.conn.status = .waitingOnAccept ∧
      p' = { p with conn := { p.conn with status := .listening } } ∧
      p.pushAcceptRsp 0 io = some io') ∨
    (p.conn.status ≠ .waitingOnAccept ∧
      p' = { p with pendingAccepts := p.pendingAccepts + 1 } ∧ io' = io) := by
  unfold TcpProxy.enqueueAccept at h
  split_ifs at h with hs
  · obtain ⟨io₁, hio, ⟨⟩⟩ := bind_eq_some_iff.mp h
    exact .inl ⟨hs, rfl, hio⟩
  · cases h
    exact .inr ⟨hs, rfl, rfl⟩

end Specs

end TcpProxy

/-! ## Unix -/

structure UnixProxy where
  conn : StreamConn
  path : String
  deriving DecidableEq, Repr

namespace UnixProxy

def new (id cid : U64) (localPort controlPort : U32) (path : String) (fd : ℕ) : UnixProxy where
  conn := ⟨id, cid, localPort, 0, controlPort, fd, .idle, 0, 0, 0, 0, 0, 0⟩
  path := path

/-- The path fits a socket address; the source unwraps the failure. -/
def addrOk (path : String) : Bool := decide (path.utf8ByteSize < 108)

def connect (p : UnixProxy) (answer : ConnectAnswer) (io : Io M) :
    Option (ProxyUpdate × UnixProxy × Io M) :=
  if addrOk p.path then
    (p.conn.connect answer io).map fun (update, conn, io) => (update, { p with conn }, io)
  else none

/-- `sendto_data`, `push_accept_rsp` and `shutdown` have no effect on the model's state, and the
calls that are `todo!()` panic. -/
def call (p : UnixProxy) (c : ProxyCall) (io : Io M) : Option (ProxyUpdate × UnixProxy × Io M) :=
  match c with
  | .connect _ _ answer => p.connect answer io
  | .confirmConnect pkt =>
    (p.conn.confirmConnect pkt io).map fun (conn, io) => ({}, { p with conn }, io)
  | .sendmsg pkt answer =>
    (p.conn.sendmsg pkt answer io).map fun (update, conn, io) => (update, { p with conn }, io)
  | .sendtoData _ _ => some ({}, p, io)
  | .updatePeerCredit pkt =>
    let (update, conn) := p.conn.updatePeerCredit pkt io.mem
    some (update, { p with conn }, io)
  | .shutdown _ => some ({}, p, io)
  | .release => some (p.conn.release, p, io)
  | .processEvent evset answers accepted =>
    (p.conn.processEvent evset answers accepted io).map fun (update, conn, io) =>
      (update, { p with conn }, io)
  | .getpeername _ _ | .sendtoAddr _ _ | .listen _ _ _ _ _ | .accept _ | .pushOpRequest
  | .processOpResponse _ | .enqueueAccept => none

end UnixProxy

/-! ## UDP -/

structure UdpProxy where
  id : U64
  cid : U64
  localPort : U32
  peerPort : U32
  fd : ℕ
  status : ProxyStatus
  sendtoAddr : Option (Ipv4Addr × U16)
  listening : Bool
  rxCnt : U32
  txCnt : U32
  peerBufAlloc : U32
  peerFwdCnt : U32
  deriving DecidableEq, Repr

namespace UdpProxy

def new (id cid : U64) (peerPort : U32) (fd : ℕ) : UdpProxy :=
  ⟨id, cid, 0, peerPort, fd, .idle, none, false, 0, 0, 0, 0⟩

/-- The two CIDs are the other way round than in a stream packet. -/
def initPkt (p : UdpProxy) (pkt : VsockPacket) (m : M) : M :=
  m |> pkt.setOp vsockOpRw |> pkt.setSrcCid p.cid |> pkt.setDstCid vsockHostCid
    |> pkt.setDstPort p.peerPort |> pkt.setSrcPort 0 |> pkt.setType vsockTypeDgram
    |> pkt.setBufAlloc connTxBufSize |> pkt.setFwdCnt p.txCnt

def recvToPkt (pkt : VsockPacket) (answer : RecvAnswer) (io : Io M) : RecvPkt × Io M :=
  match pkt.buf with
  | some buf => recvInto buf pkt.bufSize answer io
  | none => (.error, io)

def fill (p : UdpProxy) (head : DescriptorChain) (answer : RecvAnswer) (io : Io M) :
    HeadResult UdpProxy M :=
  match VsockPacket.fromRxVirtqHead head io.mem with
  | .error _ => .undo false p io
  | .ok pkt =>
    match recvToPkt pkt answer io with
    | (.waitForCredit, io) => .undo true p io
    | (.read cnt, io) =>
      let p := { p with rxCnt := p.rxCnt + BitVec.ofNat 32 cnt }
      let mem := io.mem |> p.initPkt pkt |> pkt.setLen (BitVec.ofNat 32 cnt)
      .used (vsockPktHdrSize + cnt) pkt p { io with mem }
    | (.close, io) => .undo false { p with status := .closed } io
    | (.error, io) => .undo false p io

variable {p p' : UdpProxy} {head : DescriptorChain} {answer : RecvAnswer} {io io' : Io M}

theorem fill_undo {wait : Bool} (h : p.fill head answer io = .undo wait p' io') : io' = io := by
  unfold fill at h
  split at h
  · simp only [HeadResult.undo.injEq] at h
    exact h.2.2.symm
  · unfold recvToPkt recvInto at h
    grind

theorem fill_used {len : ℕ} {pkt : VsockPacket} (h : p.fill head answer io = .used len pkt p' io') :
    ∃ buf bs, VsockPacket.fromRxVirtqHead head io.mem = .ok pkt ∧ pkt.buf = some buf ∧
      bs.length ≤ pkt.bufSize ∧
      io' = { io with
        mem := (writeSlice io.mem buf bs).1 |> p'.initPkt pkt
          |> pkt.setLen (BitVec.ofNat 32 bs.length)
        received := io.received ++ bs } := by
  unfold fill at h
  split at h
  · simp at h
  · next pkt' hpkt =>
    split at h
    · simp at h
    · next cnt io₁ hrecv =>
      obtain ⟨rfl, rfl, rfl, rfl⟩ := h
      unfold recvToPkt at hrecv
      split at hrecv
      · next buf hbuf =>
        obtain ⟨bs, rfl, _, hle, _, rfl⟩ := recvInto_read hrecv
        exact ⟨buf, bs, hpkt, hbuf, hle, rfl⟩
      · simp at hrecv
    · simp at h
    · simp at h

def receiver : Receiver UdpProxy M where
  fill := fill
  count p _ := p
  credit p := (p.rxCnt - p.peerFwdCnt, p.peerBufAlloc)

def recvPkt (p : UdpProxy) (answers : List RecvAnswer) (io : Io M) :
    Option (Bool × Bool × UdpProxy × Io M) :=
  receiver.recvLoop answers false p io

def setPeerCredit (p : UdpProxy) (pkt : VsockPacket) (m : M) : UdpProxy :=
  { p with peerBufAlloc := pkt.bufAlloc m, peerFwdCnt := pkt.fwdCnt m }

/-- Any error is final here, `EINPROGRESS` included. -/
def connect (p : UdpProxy) (pkt : VsockPacket) (answer : Except Errno Unit) (io : Io M) :
    Option (ProxyUpdate × UdpProxy × Io M) := do
  let (p, result) : UdpProxy × U32 := match answer with
    | .ok () => ({ p with status := .connected }, 0)
    | .error e => (p, e.neg)
  let p := p.setPeerCredit pkt io.mem
  let io ← io.push p.cid (.connResponse (pkt.dstPort io.mem) (pkt.srcPort io.mem) result)
  let polling := if result = 0 ∧ p.listening = false then some (p.id, p.fd, EventSet.IN) else none
  some ({ polling }, p, io)

def getpeername (p : UdpProxy) (pkt : VsockPacket) (answer : Except Errno (Ipv4Addr × U16))
    (io : Io M) : Option (Io M) :=
  match answer with
  | .ok (addr, port) =>
    io.push p.cid (.getnameResponse (pkt.dstPort io.mem) (pkt.srcPort io.mem) ⟨addr, port, 0⟩)
  | .error _ => none

def sendmsg (p : UdpProxy) (pkt : VsockPacket) (answer : SendAnswer) (io : Io M) :
    UdpProxy × Io M :=
  let bytes := pkt.sentBytes answer io.mem
  ({ p with txCnt := p.txCnt + BitVec.ofNat 32 bytes.length }, { io with sent := io.sent ++ bytes })

def setSendtoAddr (p : UdpProxy) (req : TsiSendtoAddr) (bind : Except Errno Unit) :
    ProxyUpdate × UdpProxy :=
  let p := { p with sendtoAddr := some (req.addr, req.port) }
  if p.listening then ({}, p)
  else
    match bind with
    | .ok () => ({ polling := some (p.id, p.fd, .IN) }, { p with listening := true })
    | .error _ => ({}, p)

def sendtoData (p : UdpProxy) (pkt : VsockPacket) (answer : SendAnswer) (io : Io M) :
    UdpProxy × Io M :=
  let p := p.setPeerCredit pkt io.mem
  if p.sendtoAddr.isSome then p.sendmsg pkt answer io else (p, io)

def updatePeerCredit (p : UdpProxy) (pkt : VsockPacket) (m : M) : ProxyUpdate × UdpProxy :=
  ({ polling := some (p.id, p.fd, .IN) }, p.setPeerCredit pkt m)

def processEvent (p : UdpProxy) (evset : EventSet) (answers : List RecvAnswer) (io : Io M) :
    Option (ProxyUpdate × UdpProxy × Io M) :=
  if evset.hangUp then some ({ removeProxy := removalOf p.status }, p, io)
  else if evset.inp then do
    let (haveUsed, waitCredit, p, io) ← p.recvPkt answers io
    let wait := waitCredit && p.status != .waitingCreditUpdate
    let p := if wait then { p with status := .waitingCreditUpdate } else p
    let update : ProxyUpdate :=
      { signalQueue := haveUsed || waitCredit
        pushCreditReq :=
          if wait then some (.creditRequest p.localPort p.peerPort p.txCnt) else none
        polling :=
          if p.status = .waitingCreditUpdate then some (p.id, p.fd, .empty) else none }
    some (update, p, io)
  else some ({}, p, io)

def call (p : UdpProxy) (c : ProxyCall) (io : Io M) : Option (ProxyUpdate × UdpProxy × Io M) :=
  match c with
  | .connect pkt _ answer =>
    p.connect pkt (match answer with
      | .ok => .ok ()
      | .inProgress => .error ⟨115, by decide, by decide⟩
      | .err e => .error e) io
  | .getpeername pkt answer => (p.getpeername pkt answer io).map fun io => ({}, p, io)
  | .sendmsg pkt answer => some ({}, p.sendmsg pkt answer io)
  | .sendtoAddr req bind =>
    let (update, p) := p.setSendtoAddr req bind
    some (update, p, io)
  | .sendtoData pkt answer => some ({}, p.sendtoData pkt answer io)
  | .updatePeerCredit pkt =>
    let (update, p) := p.updatePeerCredit pkt io.mem
    some (update, p, io)
  | .release => some ({ removeProxy := removalOf p.status }, p, io)
  | .processEvent evset answers _ => p.processEvent evset answers io
  | .confirmConnect _ | .listen _ _ _ _ _ | .accept _ | .pushOpRequest | .processOpResponse _
  | .enqueueAccept | .shutdown _ => some ({}, p, io)

end UdpProxy

/-! ## Dispatch -/

/-- A `Box<dyn Proxy>`. -/
inductive Proxy
  | tcp (p : TcpProxy)
  | unix (p : UnixProxy)
  | udp (p : UdpProxy)
  deriving DecidableEq, Repr

namespace Proxy

def call (p : Proxy) (c : ProxyCall) (io : Io M) : Option (ProxyUpdate × Proxy × Io M) :=
  match p with
  | tcp p => (p.call c io).map fun (update, p, io) => (update, tcp p, io)
  | unix p => (p.call c io).map fun (update, p, io) => (update, unix p, io)
  | udp p => (p.call c io).map fun (update, p, io) => (update, udp p, io)

def status : Proxy → ProxyStatus
  | tcp p => p.conn.status
  | unix p => p.conn.status
  | udp p => p.status

def tcp? : Proxy → Option TcpProxy
  | tcp p => some p
  | _ => none

def conn? : Proxy → Option StreamConn
  | tcp p => some p.conn
  | unix p => some p.conn
  | udp _ => none

end Proxy

end Shelter.Vsock
