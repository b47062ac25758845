import Shelter.Lib.Run
import Shelter.Vsock.Proxies

/-!
# Runs of a proxy

A proxy is called by the packet handlers of the device thread and by the muxer thread, one call
at a time, since it sits behind a mutex. Between two calls the guest and the other threads change
the RX side. A run is a list of such events in any order.

`Proxy.call_effect` says what a call can do to the counters of a stream proxy: nothing, take over
the credit the guest announces, or receive.
-/

open Bytes

namespace Shelter.Vsock

open Virtio StreamConn Option

variable {M : Type} [GuestMemory M]

structure ProxyState (M : Type) where
  proxy : Proxy
  io : Io M

/-- A call of the proxy, or a change of the RX side by the guest and the other threads. -/
inductive ProxyEvent (M : Type)
  | call (c : ProxyCall)
  | others (rx : RxSide M)

namespace ProxyState

def step (s : ProxyState M) : ProxyEvent M → Option (ProxyState M)
  | .call c => (s.proxy.call c s.io).map fun (_, proxy, io) => ⟨proxy, io⟩
  | .others rx => some { s with io := { s.io with toRxSide := rx } }

variable {s s' : ProxyState M}

theorem step_call {c : ProxyCall} (h : s.step (.call c) = some s') :
    ∃ update, s.proxy.call c s.io = some (update, s'.proxy, s'.io) := by
  obtain ⟨⟨update, proxy, io⟩, hcall, rfl⟩ := map_eq_some_iff.mp h
  exact ⟨update, hcall⟩

theorem step_others {rx : RxSide M} (h : s.step (.others rx) = some s') :
    s' = { s with io := { s.io with toRxSide := rx } } := (Option.some.inj h).symm

end ProxyState

inductive Proxy.Created : Proxy → Prop
  | tcp (id cid : U64) (localPort peerPort controlPort : U32) (fd : ℕ) :
    Created (.tcp (.new id cid localPort peerPort controlPort fd))
  | reverse (id cid parentId : U64) (localPort peerPort : U32) (fd : ℕ) :
    Created (.tcp (.newReverse id cid parentId localPort peerPort fd))
  | unix (id cid : U64) (localPort controlPort : U32) (path : String) (fd : ℕ) :
    Created (.unix (.new id cid localPort controlPort path fd))
  | udp (id cid : U64) (peerPort : U32) (fd : ℕ) : Created (.udp (.new id cid peerPort fd))

variable {c : StreamConn} {p p' : TcpProxy} {io io' : Io M} {update : ProxyUpdate}
  {call : ProxyCall}

theorem Proxy.Created.counters {p : Proxy} (h : p.Created) (hc : p.conn? = some c) :
    c.rxCnt = 0 ∧ c.peerFwdCnt = 0 ∧ c.peerBufAlloc = 0 := by
  cases h with
  | udp => simp [Proxy.conn?] at hc
  | tcp | reverse | unix =>
    cases hc
    exact ⟨rfl, rfl, rfl⟩

theorem Proxy.Created.accepts (h : (Proxy.tcp p).Created) :
    p.pendingAccepts = 0 ∧ p.conn.status ≠ .waitingOnAccept := by
  cases h with
  | tcp | reverse => exact ⟨rfl, ProxyStatus.noConfusion⟩

def ProxyCall.announcement : ProxyCall → Option VsockPacket
  | confirmConnect pkt | updatePeerCredit pkt | processOpResponse pkt => some pkt
  | _ => none

/-- Nothing was received, and the credit is as before. -/
structure Quiet (c c' : StreamConn) (io io' : Io M) : Prop where
  rxCnt : c'.rxCnt = c.rxCnt
  peerBufAlloc : c'.peerBufAlloc = c.peerBufAlloc
  peerFwdCnt : c'.peerFwdCnt = c.peerFwdCnt
  received : io'.received = io.received
  delivered : io'.delivered = io.delivered

/-- What a call can do to the counters of a connection. -/
inductive ConnEffect (call : ProxyCall) (c c' : StreamConn) (io io' : Io M) : Prop
  | quiet : Quiet c c' io io' → ConnEffect call c c' io io'
  | credit (pkt : VsockPacket) : call.announcement = some pkt →
    Quiet (c.setPeerCredit pkt io.mem) c' io io' → ConnEffect call c c' io io'
  | receive (evset : EventSet) (answers : List RecvAnswer) (accepted : Except Errno ℕ)
      (haveUsed wait : Bool) (c₁ : StreamConn) (io₁ : Io M) :
    call = .processEvent evset answers accepted → c.status = .connected →
    c.recvPkt answers io = some (haveUsed, wait, c₁, io₁) → Quiet c₁ c' io₁ io' →
    ConnEffect call c c' io io'

omit [GuestMemory M] in
theorem Quiet.refl (c : StreamConn) (io : Io M) : Quiet c c io io := ⟨rfl, rfl, rfl, rfl, rfl⟩

theorem Quiet.of_push {c' : StreamConn} {cid : U64} {rx : MuxerRx} (h : io.push cid rx = some io')
    (hc : Quiet c c' io io) : Quiet c c' io io' := by
  obtain ⟨_, hr, _, hd⟩ := Io.push_logs h
  exact ⟨hc.rxCnt, hc.peerBufAlloc, hc.peerFwdCnt, hr, hd⟩

namespace StreamConn

variable {c c' : StreamConn} {io io' : Io M} {update : ProxyUpdate}

theorem turn_stop_quiet {answer : RecvAnswer} {wait : Bool}
    (h : receiver.turn answer c io = some (.stop wait c' io')) : Quiet c c' io io' := by
  obtain ⟨q, _, rfl, rfl, rfl⟩ | ⟨head, q, io₁, _, hfill, rfl⟩ := Receiver.turn_stop h
  · exact ⟨rfl, rfl, rfl, rfl, rfl⟩
  · obtain ⟨rfl, rfl | ⟨rfl, rfl⟩⟩ := fill_undo hfill
    all_goals exact ⟨rfl, rfl, rfl, rfl, rfl⟩

theorem connect_quiet {answer : ConnectAnswer} (h : c.connect answer io = some (update, c', io')) :
    Quiet c c' io io' := by
  obtain ⟨rfl, rfl | ⟨r, hio⟩⟩ := connect_spec h
  · exact ⟨rfl, rfl, rfl, rfl, rfl⟩
  · exact .of_push hio ⟨rfl, rfl, rfl, rfl, rfl⟩

variable {pkt : VsockPacket}

theorem confirmConnect_quiet (h : c.confirmConnect pkt io = some (c', io')) :
    Quiet (c.setPeerCredit pkt io.mem) c' io io' := by
  obtain ⟨rfl, hio⟩ := confirmConnect_spec h
  exact .of_push hio ⟨rfl, rfl, rfl, rfl, rfl⟩

theorem sendmsg_quiet {answer : SendAnswer} (h : c.sendmsg pkt answer io = some (update, c', io')) :
    Quiet c c' io io' := by
  obtain ⟨⟨last, rfl⟩, io₁, rfl, rfl | hio⟩ := sendmsg_spec h
  · exact ⟨rfl, rfl, rfl, rfl, rfl⟩
  · obtain ⟨_, hr, _, hd⟩ := Io.push_logs hio
    exact ⟨rfl, rfl, rfl, hr, hd⟩

theorem processEvent_effect {evset : EventSet} {answers : List RecvAnswer}
    {accepted : Except Errno ℕ}
    (h : c.processEvent evset answers accepted io = some (update, c', io')) :
    ConnEffect (.processEvent evset answers accepted) c c' io io' := by
  obtain ⟨_, rfl, ⟨r, hio⟩ | hio⟩ |
    ⟨_, _, hs, haveUsed, wait, c₁, io₁, hrecv, rfl, ⟨rfl, _⟩ | ⟨_, hio⟩⟩ |
    ⟨_, _, _, rfl, hio⟩ | ⟨_, rfl, rfl⟩ := processEvent_cases h
  · exact .quiet (.of_push hio ⟨rfl, rfl, rfl, rfl, rfl⟩)
  · exact .quiet (.of_push hio ⟨rfl, rfl, rfl, rfl, rfl⟩)
  · exact .receive evset answers accepted haveUsed wait c₁ _ rfl hs hrecv ⟨rfl, rfl, rfl, rfl, rfl⟩
  · exact .receive evset answers accepted haveUsed wait c₁ io₁ rfl hs hrecv
      (.of_push hio ⟨rfl, rfl, rfl, rfl, rfl⟩)
  · exact .quiet (.of_push hio ⟨rfl, rfl, rfl, rfl, rfl⟩)
  · exact .quiet (.refl _ _)

end StreamConn

omit [GuestMemory M] in
theorem onConn_some {r : Option (ProxyUpdate × StreamConn × Io M)}
    (h : p.onConn r = some (update, p', io')) :
    r = some (update, p'.conn, io') ∧ p' = { p with conn := p'.conn } := by
  obtain ⟨⟨u, conn, io⟩, hr, ⟨⟩⟩ := map_eq_some_iff.mp h
  exact ⟨hr, rfl⟩

theorem TcpProxy.call_effect (h : p.call call io = some (update, p', io')) :
    ConnEffect call p.conn p'.conn io io' := by
  cases call with
  | connect _ _ answer => exact .quiet (connect_quiet (onConn_some h).1)
  | confirmConnect pkt =>
    obtain ⟨⟨conn, io₁⟩, hconn, ⟨⟩⟩ := map_eq_some_iff.mp h
    exact .credit pkt rfl (confirmConnect_quiet hconn)
  | getpeername | pushOpRequest =>
    obtain ⟨io₁, hio, ⟨⟩⟩ := map_eq_some_iff.mp h
    exact .quiet (.of_push hio (.refl _ _))
  | sendmsg pkt answer => exact .quiet (sendmsg_quiet (onConn_some h).1)
  | sendtoAddr | sendtoData | shutdown | release =>
    cases h
    exact .quiet (.refl _ _)
  | listen pkt req portMap bind listen =>
    obtain ⟨hio, ⟨_, rfl⟩ | ⟨_, rfl⟩⟩ := TcpProxy.listen_spec h
    · exact .quiet (.of_push hio ⟨rfl, rfl, rfl, rfl, rfl⟩)
    · exact .quiet (.of_push hio (.refl _ _))
  | accept req =>
    obtain ⟨_, rfl, hio⟩ | ⟨_, _, rfl, hio⟩ | ⟨_, _, rfl, rfl⟩ := TcpProxy.accept_spec h
    · exact .quiet (.of_push hio (.refl _ _))
    · exact .quiet (.of_push hio (.refl _ _))
    · exact .quiet ⟨rfl, rfl, rfl, rfl, rfl⟩
  | updatePeerCredit pkt | processOpResponse pkt =>
    cases h
    exact .credit pkt rfl ⟨rfl, rfl, rfl, rfl, rfl⟩
  | enqueueAccept =>
    obtain ⟨⟨p₁, io₁⟩, henq, ⟨⟩⟩ := map_eq_some_iff.mp h
    obtain ⟨_, rfl, hio⟩ | ⟨_, rfl, rfl⟩ := TcpProxy.enqueueAccept_spec henq
    · exact .quiet (.of_push hio ⟨rfl, rfl, rfl, rfl, rfl⟩)
    · exact .quiet (.refl _ _)
  | processEvent evset answers accepted =>
    exact processEvent_effect (onConn_some h).1

theorem UnixProxy.call_effect {p p' : UnixProxy} (h : p.call call io = some (update, p', io')) :
    ConnEffect call p.conn p'.conn io io' := by
  cases call with
  | connect _ _ answer =>
    simp only [UnixProxy.call, UnixProxy.connect] at h
    split_ifs at h
    obtain ⟨⟨u, conn, io₁⟩, hconn, ⟨⟩⟩ := map_eq_some_iff.mp h
    exact .quiet (connect_quiet hconn)
  | confirmConnect pkt =>
    obtain ⟨⟨conn, io₁⟩, hconn, ⟨⟩⟩ := map_eq_some_iff.mp h
    exact .credit pkt rfl (confirmConnect_quiet hconn)
  | sendmsg pkt answer =>
    obtain ⟨⟨u, conn, io₁⟩, hconn, ⟨⟩⟩ := map_eq_some_iff.mp h
    exact .quiet (sendmsg_quiet hconn)
  | sendtoData | shutdown | release =>
    cases h
    exact .quiet (.refl _ _)
  | updatePeerCredit pkt =>
    cases h
    exact .credit pkt rfl ⟨rfl, rfl, rfl, rfl, rfl⟩
  | processEvent evset answers accepted =>
    obtain ⟨⟨u, conn, io₁⟩, hconn, ⟨⟩⟩ := map_eq_some_iff.mp h
    exact processEvent_effect hconn
  | getpeername | sendtoAddr | listen | accept | pushOpRequest | processOpResponse
  | enqueueAccept => simp [UnixProxy.call] at h

theorem Proxy.call_effect {p p' : Proxy} (hc : p.conn? = some c)
    (h : p.call call io = some (update, p', io')) :
    ∃ c', p'.conn? = some c' ∧ ConnEffect call c c' io io' := by
  cases p with
  | tcp p =>
    obtain ⟨⟨u, p₁, io₁⟩, hcall, ⟨⟩⟩ := map_eq_some_iff.mp h
    cases hc
    exact ⟨_, rfl, TcpProxy.call_effect hcall⟩
  | unix p =>
    obtain ⟨⟨u, p₁, io₁⟩, hcall, ⟨⟩⟩ := map_eq_some_iff.mp h
    cases hc
    exact ⟨_, rfl, UnixProxy.call_effect hcall⟩
  | udp p => simp [Proxy.conn?] at hc

/-! ## A small RX side -/

/-- Two RX buffers of 64 bytes in the queue, and the headers of two packets of the guest, which
announce buffers of the given sizes. -/
def smallRxMemory (first second : U32) : FlatMemory :=
  ((((smallMemory.put 0 (Descriptor.toBytes ⟨0x100, 64, virtqDescFWrite, 0⟩)).put 16
    (Descriptor.toBytes ⟨0x140, 64, virtqDescFWrite, 0⟩)).put 0x82
    (leBytes 2 2 ++ leBytes 2 0 ++ leBytes 2 1)).put 0x1c4 (leBytes 4 first.toNat)).put 0x1f4
    (leBytes 4 second.toNat)

def firstPacket : VsockPacket := ⟨0x1a0, none, 0⟩

def secondPacket : VsockPacket := ⟨0x1d0, none, 0⟩

def smallProxy (first second : U32) : ProxyState FlatMemory :=
  ⟨.tcp (.new 1 3 1024 2048 1025 7),
    .start ⟨smallQueue, smallRxMemory first second, .new⟩⟩

end Shelter.Vsock
