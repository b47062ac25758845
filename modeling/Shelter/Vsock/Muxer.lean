import Shelter.Vsock.Proxies

/-!
# The packet handlers of the muxer

The device thread hands each packet of the guest to `send_stream_pkt` or `send_dgram_pkt`. A
handler looks up a proxy under a guard of the proxy map, calls it, and ends with
`process_proxy_update`, which may take the map for writing. So a handler is modelled in two parts:
`sendStreamPkt` and `sendDgramPkt` go up to that last call and return it as a `DevicePc`, with the
guard the thread still holds then, and `DevicePc.finish` makes it.

A guard is released at the end of the statement that took it. In `if let Some(proxy) =
self.proxy_map.read().unwrap().get(&id) { .. }` that is the end of the block, so there the thread
still holds it when it calls `process_proxy_update`. A thread that asks for the write lock with a
guard in hand waits for itself.

The numbers that tell proxies apart and the lists of what was created and removed are records of
the model; the code has only the ids.
-/

open Bytes

namespace Shelter.Vsock

open Virtio

variable {M : Type} [GuestMemory M]

/-- What a thread holds of the lock of the proxy map. -/
inductive Guard
  | none | read | write
  deriving DecidableEq, Repr

structure Entry where
  inst : ℕ
  proxy : Proxy
  deriving DecidableEq, Repr

structure Muxer (M : Type) where
  cid : U64
  hostPortMap : Option (List (U16 × U16))
  unixIpcPortMap : Option (List (U32 × String))
  proxyMap : U64 → Option Entry
  /-- the receiver of the channel is there -/
  reaperAlive : Bool
  /-- the removals sent to the reaper, each with the number of the proxy it is meant for -/
  channel : List (U64 × ℕ)
  io : Io M
  /-- the ids of all proxies ever created; a proxy's number is its place -/
  created : List U64
  /-- the removals carried out, each with the number of the proxy it was meant for -/
  removed : List (U64 × ℕ)

/-- What the host answers to the system calls of a handler. -/
structure HostAnswers where
  socket : Except Errno ℕ
  connect : ConnectAnswer
  peername : Except Errno (Ipv4Addr × U16)
  send : SendAnswer
  bind : Except Errno Unit
  listen : Except Errno Unit

def quietHost : HostAnswers :=
  ⟨.error eperm, .err eperm, .error eperm, .error eperm, .error eperm, .error eperm⟩

/-- A call of `process_proxy_update`: the guard the caller holds, the id, the number of the proxy
that asks for the update, and the update. -/
structure Pending where
  guard : Guard
  id : U64
  inst : ℕ
  update : ProxyUpdate

/-- Where the device thread is in a handler: done, about to tell a listening proxy of a connection,
or about to carry out an update. -/
inductive DevicePc
  | idle
  | accept (parentId : U64) (next : Pending)
  | update (p : Pending)

def proxyId (peerPort localPort : U32) : U64 :=
  peerPort.setWidth 64 <<< 32 ||| localPort.setWidth 64

namespace Muxer

/-! ## The proxy map -/

variable (s : Muxer M)

def insert (id : U64) (p : Proxy) : Muxer M :=
  { s with
    proxyMap := Function.update s.proxyMap id (some ⟨s.created.length, p⟩)
    created := s.created ++ [id] }

def remove (id : U64) (inst : ℕ) : Muxer M :=
  { s with
    proxyMap := Function.update s.proxyMap id none
    removed := s.removed ++ [(id, inst)] }

def call (id : U64) (c : ProxyCall) : Option (Option (ℕ × ProxyUpdate) × Muxer M) :=
  match s.proxyMap id with
  | none => some (none, s)
  | some e => (e.proxy.call c s.io).map fun (update, proxy, io) =>
      (some (e.inst, update),
        { s with proxyMap := Function.update s.proxyMap id (some ⟨e.inst, proxy⟩), io })

/-- Take the map for writing and remove a proxy. A thread that holds a guard does not get it,
which is the result `none`. -/
def removeLocked (guard : Guard) (id : U64) (inst : ℕ) : Option (Muxer M) :=
  if guard = .none then some (s.remove id inst) else none

def processProxyUpdate (p : Pending) : Option (Muxer M) :=
  match p.update.removeProxy with
  | .keep => some s
  | .immediate => s.removeLocked p.guard p.id p.inst
  | .deferred =>
    if s.reaperAlive then some { s with channel := s.channel ++ [(p.id, p.inst)] }
    else s.removeLocked p.guard p.id p.inst

/-! ## Handlers -/

/-- Call a proxy and go on to the update it asks for, with the given guard. -/
def callThenUpdate (guard : Guard) (id : U64) (c : ProxyCall) : Option (DevicePc × Muxer M) :=
  (s.call id c).map fun (r, s) =>
    match r with
    | some (inst, update) => (.update ⟨guard, id, inst, update⟩, s)
    | none => (.idle, s)

def callOnly (id : U64) (c : ProxyCall) : Option (DevicePc × Muxer M) :=
  (s.call id c).map fun (_, s) => (.idle, s)

/-- Handle a request of the control ports, if the packet holds one. -/
def onRequest {A : Type} (s : Muxer M) (req : Option A) (f : A → Option (DevicePc × Muxer M)) :
    Option (DevicePc × Muxer M) :=
  match req with
  | some req => f req
  | none => some (.idle, s)

variable (a : HostAnswers) (pkt : VsockPacket)

def processProxyCreate : DevicePc × Muxer M :=
  match pkt.readProxyCreate s.io.mem, a.socket with
  | some req, .ok fd =>
    let id := proxyId req.peerPort tsiProxyPort
    if req.type = sockStream then
      (.idle, s.insert id
        (.tcp (.new id s.cid tsiProxyPort req.peerPort (pkt.srcPort s.io.mem) fd)))
    else if req.type = sockDgram then (.idle, s.insert id (.udp (.new id s.cid req.peerPort fd)))
    else (.idle, s)
  | _, _ => (.idle, s)

def processConnect : Option (DevicePc × Muxer M) :=
  s.onRequest (pkt.readConnectReq s.io.mem) fun req =>
    s.callThenUpdate .none (proxyId req.peerPort tsiProxyPort) (.connect pkt req a.connect)

def processGetname : Option (DevicePc × Muxer M) :=
  s.onRequest (pkt.readGetnameReq s.io.mem) fun req =>
    s.callOnly (proxyId req.peerPort req.localPort) (.getpeername pkt a.peername)

def processSendtoAddr : Option (DevicePc × Muxer M) :=
  s.onRequest (pkt.readSendtoAddr s.io.mem) fun req =>
    s.callThenUpdate .none (proxyId req.peerPort tsiProxyPort) (.sendtoAddr req a.bind)

def processSendtoData : Option (DevicePc × Muxer M) :=
  s.callOnly (proxyId (pkt.srcPort s.io.mem) tsiProxyPort) (.sendtoData pkt a.send)

def processListenRequest : Option (DevicePc × Muxer M) :=
  s.onRequest (pkt.readListenReq s.io.mem) fun req =>
    s.callThenUpdate .none (proxyId req.peerPort tsiProxyPort)
      (.listen pkt req s.hostPortMap a.bind a.listen)

def processAcceptRequest : Option (DevicePc × Muxer M) :=
  s.onRequest (pkt.readAcceptReq s.io.mem) fun req =>
    s.callThenUpdate .none (proxyId req.peerPort tsiProxyPort) (.accept req)

def processProxyRelease : Option (DevicePc × Muxer M) :=
  s.onRequest (pkt.readReleaseReq s.io.mem) fun req =>
    s.callThenUpdate .none (proxyId req.peerPort req.localPort) .release

/-- The guard lives through the block of the `if let`. -/
def processDgramRw : Option (DevicePc × Muxer M) :=
  s.callThenUpdate .read (proxyId (pkt.srcPort s.io.mem) tsiProxyPort) (.sendmsg pkt a.send)

def sendDgramPkt : Option (DevicePc × Muxer M) :=
  if pkt.dstCid s.io.mem ≠ vsockHostCid then some (.idle, s)
  else
    let port := pkt.dstPort s.io.mem
    if port = tsiProxyCreate then some (s.processProxyCreate a pkt)
    else if port = tsiConnect then s.processConnect a pkt
    else if port = tsiGetname then s.processGetname a pkt
    else if port = tsiSendtoAddr then s.processSendtoAddr a pkt
    else if port = tsiSendtoData then s.processSendtoData a pkt
    else if port = tsiListen then s.processListenRequest a pkt
    else if port = tsiAccept then s.processAcceptRequest pkt
    else if port = tsiProxyRelease then s.processProxyRelease pkt
    else if pkt.op s.io.mem = vsockOpRw then s.processDgramRw a pkt
    else some (.idle, s)

def streamId : U64 :=
  proxyId (pkt.srcPort s.io.mem) (pkt.dstPort s.io.mem)

def unixPath? (port : U32) : Option String :=
  s.unixIpcPortMap.bind fun ipcMap => ipcMap.lookup port

/-- Connect a new Unix proxy and confirm the connection. The address of the request is unused. -/
def connectUnix (path : String) (fd : ℕ) : Option (ProxyUpdate × UnixProxy × Io M) :=
  let unix := UnixProxy.new (s.streamId pkt) s.cid (pkt.dstPort s.io.mem) (pkt.srcPort s.io.mem)
    path fd
  (unix.connect a.connect s.io).bind fun (update, unix, io) =>
    (unix.conn.confirmConnect pkt io).map fun (conn, io) => (update, { unix with conn }, io)

/-- The map is held for writing throughout. A socket that cannot be created is a panic. -/
def processOpRequest : Option (DevicePc × Muxer M) :=
  let id := s.streamId pkt
  if (s.proxyMap id).isSome then s.callOnly id (.confirmConnect pkt)
  else
    match s.unixPath? (pkt.dstPort s.io.mem), a.socket with
    | none, _ => some (.idle, s)
    | some _, .error _ => none
    | some path, .ok fd =>
      (s.connectUnix a pkt path fd).map fun (update, unix, io) =>
        let inst := s.created.length
        (.update ⟨.write, id, inst, update⟩, { s with io }.insert id (.unix unix))

/-- The connection is confirmed before the proxy that accepted it is told. -/
def processOpResponse : Option (DevicePc × Muxer M) :=
  let id := s.streamId pkt
  (s.call id (.processOpResponse pkt)).map fun (r, s) =>
    match r with
    | none => (.idle, s)
    | some (inst, update) =>
      match update.pushAccept with
      | some (_, parentId) => (.accept parentId ⟨.none, id, inst, update⟩, s)
      | none => (.update ⟨.none, id, inst, update⟩, s)

def processOpShutdown : Option (DevicePc × Muxer M) :=
  s.callOnly (s.streamId pkt) (.shutdown pkt)

def processOpCreditUpdate : Option (DevicePc × Muxer M) :=
  s.callThenUpdate .none (s.streamId pkt) (.updatePeerCredit pkt)

/-- The guard lives through the block of the `if let`, and through its `else`. -/
def processStreamRw : Option (DevicePc × Muxer M) :=
  if (s.proxyMap (s.streamId pkt)).isSome then
    s.callThenUpdate .read (s.streamId pkt) (.sendmsg pkt a.send)
  else
    (s.io.push s.cid (.reset (pkt.dstPort s.io.mem) (pkt.srcPort s.io.mem))).map fun io =>
      (.idle, { s with io })

/-- The guard lives through the block of the `if let`. -/
def processStreamRst : Option (DevicePc × Muxer M) :=
  s.callThenUpdate .read (s.streamId pkt) .release

def sendStreamPkt : Option (DevicePc × Muxer M) :=
  if pkt.dstCid s.io.mem ≠ vsockHostCid then some (.idle, s)
  else
    let op := pkt.op s.io.mem
    if op = vsockOpRequest then s.processOpRequest a pkt
    else if op = vsockOpResponse then s.processOpResponse pkt
    else if op = vsockOpShutdown then s.processOpShutdown pkt
    else if op = vsockOpCreditUpdate then s.processOpCreditUpdate pkt
    else if op = vsockOpRw then s.processStreamRw a pkt
    else if op = vsockOpRst then s.processStreamRst pkt
    else some (.idle, s)

/-- What `process_stream_tx` does with a packet. -/
def sendPkt : Option (DevicePc × Muxer M) :=
  if pkt.type s.io.mem = vsockTypeDgram then s.sendDgramPkt a pkt else s.sendStreamPkt a pkt

def IsRst : Prop :=
  pkt.type s.io.mem ≠ vsockTypeDgram ∧ pkt.dstCid s.io.mem = vsockHostCid ∧
    pkt.op s.io.mem = vsockOpRst

def IsCreate : Prop :=
  pkt.type s.io.mem = vsockTypeDgram ∧ pkt.dstCid s.io.mem = vsockHostCid ∧
    pkt.dstPort s.io.mem = tsiProxyCreate

def IsRequest : Prop :=
  pkt.type s.io.mem ≠ vsockTypeDgram ∧ pkt.dstCid s.io.mem = vsockHostCid ∧
    pkt.op s.io.mem = vsockOpRequest

def IsResponse : Prop :=
  pkt.type s.io.mem ≠ vsockTypeDgram ∧ pkt.dstCid s.io.mem = vsockHostCid ∧
    pkt.op s.io.mem = vsockOpResponse

/-- With which guard a handler goes on to the update of a call. -/
inductive GuardFor (s : Muxer M) (pkt : VsockPacket) : Guard → ProxyCall → Prop
  | dropped (c : ProxyCall) : GuardFor s pkt .none c
  | sendmsg (answer : SendAnswer) : GuardFor s pkt .read (.sendmsg pkt answer)
  | release : s.IsRst pkt → GuardFor s pkt .read .release

section Rule

variable {s : Muxer M} {a : HostAnswers} {pkt : VsockPacket} {P : DevicePc × Muxer M → Prop}

omit [GuestMemory M] in
theorem forall_mem_ite {c : Prop} [Decidable c] {x y : Option (DevicePc × Muxer M)}
    (hx : c → ∀ r ∈ x, P r) (hy : ¬ c → ∀ r ∈ y, P r) : ∀ r ∈ if c then x else y, P r := by
  split_ifs with h
  · exact hx h
  · exact hy h

omit [GuestMemory M] in
theorem forall_mem_onRequest {A : Type} {o : Option A} {f : A → Option (DevicePc × Muxer M)}
    (hf : ∀ req, ∀ r ∈ f req, P r) (hidle : P (.idle, s)) : ∀ r ∈ s.onRequest o f, P r := by
  cases o with
  | none =>
    rintro r ⟨⟩
    exact hidle
  | some req => exact hf req

/-- To show something of every handler: of the four that do more than call a proxy, and of those
that call one, with or without carrying out its update. -/
theorem sendPkt_rule (idle : P (.idle, s))
    (create : s.IsCreate pkt → P (s.processProxyCreate a pkt))
    (update : ∀ guard id c, s.GuardFor pkt guard c → ∀ r ∈ s.callThenUpdate guard id c, P r)
    (only : ∀ id c, ∀ r ∈ s.callOnly id c, P r)
    (request : s.IsRequest pkt → ∀ r ∈ s.processOpRequest a pkt, P r)
    (response : s.IsResponse pkt → ∀ r ∈ s.processOpResponse pkt, P r)
    (reset : ∀ io, s.io.push s.cid (.reset (pkt.dstPort s.io.mem) (pkt.srcPort s.io.mem)) =
      some io → P (.idle, { s with io })) :
    ∀ r ∈ s.sendPkt a pkt, P r := by
  have hidle : ∀ r ∈ some (DevicePc.idle, s), P r := by
    rintro r ⟨⟩
    exact idle
  have hupd : ∀ id c, ∀ r ∈ s.callThenUpdate .none id c, P r := fun id c =>
    update .none id c (.dropped c)
  refine forall_mem_ite (fun hd => ?_) fun hd => ?_
  · refine forall_mem_ite (fun _ => hidle) fun hcid => forall_mem_ite (fun hport => ?_) fun _ =>
      forall_mem_ite (fun _ => forall_mem_onRequest (fun _ => hupd _ _) idle) fun _ =>
      forall_mem_ite (fun _ => forall_mem_onRequest (fun _ => only _ _) idle) fun _ =>
      forall_mem_ite (fun _ => forall_mem_onRequest (fun _ => hupd _ _) idle) fun _ =>
      forall_mem_ite (fun _ => only _ _) fun _ =>
      forall_mem_ite (fun _ => forall_mem_onRequest (fun _ => hupd _ _) idle) fun _ =>
      forall_mem_ite (fun _ => forall_mem_onRequest (fun _ => hupd _ _) idle) fun _ =>
      forall_mem_ite (fun _ => forall_mem_onRequest (fun _ => hupd _ _) idle) fun _ =>
      forall_mem_ite (fun _ => update _ _ _ (.sendmsg _)) fun _ => hidle
    rintro r ⟨⟩
    exact create ⟨hd, not_not.mp hcid, hport⟩
  · refine forall_mem_ite (fun _ => hidle) fun hcid =>
      forall_mem_ite (fun hop => request ⟨hd, not_not.mp hcid, hop⟩) fun _ =>
      forall_mem_ite (fun hop => response ⟨hd, not_not.mp hcid, hop⟩) fun _ =>
      forall_mem_ite (fun _ => only _ _) fun _ =>
      forall_mem_ite (fun _ => hupd _ _) fun _ => forall_mem_ite (fun _ => ?_) fun _ =>
      forall_mem_ite (fun hop => ?_) fun _ => hidle
    · refine forall_mem_ite (fun _ => update _ _ _ (.sendmsg _)) fun _ => ?_
      intro r hr
      obtain ⟨io, hio, rfl⟩ := Option.map_eq_some_iff.mp hr
      exact reset io hio
    · exact update _ _ _ (.release ⟨hd, not_not.mp hcid, hop⟩)

end Rule

end Muxer

inductive Handled (M : Type)
  | done (s : Muxer M)
  | panic
  | deadlock

def DevicePc.finish (s : Muxer M) : DevicePc → Handled M
  | .idle => .done s
  | .accept parentId next =>
    match s.call parentId .enqueueAccept with
    | none => .panic
    | some (_, s) =>
      match s.processProxyUpdate next with
      | some s => .done s
      | none => .deadlock
  | .update p =>
    match s.processProxyUpdate p with
    | some s => .done s
    | none => .deadlock

def Muxer.handle (s : Muxer M) (a : HostAnswers) (pkt : VsockPacket) : Handled M :=
  match s.sendPkt a pkt with
  | none => .panic
  | some (pc, s) => pc.finish s

end Shelter.Vsock
