import Shelter.Vsock.ProxyRun

/-!
# The states of a TCP proxy

`StatusMove` lists the assignments to the status of a TCP proxy, each with the call that makes it
and what the code checks before. Four of them check nothing: an answered `connect`, a credit
update, the response to a reverse connection and, unless the socket refuses, `listen`. They are
what leads out of `closed`, and from a listening proxy to a connected one.
-/

open Bytes Run

namespace Shelter.Vsock

open Virtio TcpProxy Option

variable {M : Type} [GuestMemory M]

def ProxyStatus.isListening : ProxyStatus → Bool
  | .listening | .waitingOnAccept => true
  | _ => false

def TsiAcceptReq.blocking (req : TsiAcceptReq) : Bool := req.flags &&& oNonblock == 0

namespace TcpProxy

/-- A call of the proxy that assigns its status. -/
inductive StatusMove (p : TcpProxy) : ProxyCall → ProxyStatus → Prop
  | connected (pkt : VsockPacket) (req : TsiConnectReq) :
    StatusMove p (.connect pkt req .ok) .connected
  | connecting (pkt : VsockPacket) (req : TsiConnectReq) :
    StatusMove p (.connect pkt req .inProgress) .connecting
  | listening (pkt : VsockPacket) (req : TsiListenReq) (portMap : Option (List (U16 × U16)))
      (bind listen : Except Errno Unit) : p.tryListen req portMap bind listen = 0 →
    StatusMove p (.listen pkt req portMap bind listen) .listening
  | waiting (req : TsiAcceptReq) : p.pendingAccepts = 0 → req.blocking = true →
    StatusMove p (.accept req) .waitingOnAccept
  | accepted : p.conn.status = .waitingOnAccept → StatusMove p .enqueueAccept .listening
  | credit (pkt : VsockPacket) : StatusMove p (.updatePeerCredit pkt) .connected
  | response (pkt : VsockPacket) : StatusMove p (.processOpResponse pkt) .connected
  | hangUp (evset : EventSet) (answers : List RecvAnswer) (fd : Except Errno ℕ) :
    evset.hangUp = true → StatusMove p (.processEvent evset answers fd) .closed
  | received (evset : EventSet) (answers : List RecvAnswer) (fd : Except Errno ℕ)
      (status : ProxyStatus) : p.conn.status = .connected →
    status = .closed ∨ status = .waitingCreditUpdate →
    StatusMove p (.processEvent evset answers fd) status
  | established (evset : EventSet) (answers : List RecvAnswer) (fd : Except Errno ℕ) :
    p.conn.status = .connecting → StatusMove p (.processEvent evset answers fd) .connected

variable {p : TcpProxy} {c' : StreamConn} {io io' : Io M} {update : ProxyUpdate}

theorem connect_moves {pkt : VsockPacket} {req : TsiConnectReq} {answer : ConnectAnswer}
    (h : p.conn.connect answer io = some (update, c', io')) :
    c'.status = p.conn.status ∨ p.StatusMove (.connect pkt req answer) c'.status := by
  obtain ⟨rfl, _⟩ := StreamConn.connect_spec h
  cases answer with
  | ok => exact .inr (.connected pkt req)
  | inProgress => exact .inr (.connecting pkt req)
  | err e => exact .inl rfl

theorem processEvent_moves {evset : EventSet} {answers : List RecvAnswer} {fd : Except Errno ℕ}
    (h : p.conn.processEvent evset answers fd io = some (update, c', io')) :
    c'.status = p.conn.status ∨ p.StatusMove (.processEvent evset answers fd) c'.status := by
  obtain ⟨hup, rfl, _⟩ | ⟨_, _, hs, haveUsed, wait, c₁, io₁, hrecv, rfl, _⟩ | ⟨_, _, hs, rfl, _⟩ |
    ⟨_, rfl, _⟩ := StreamConn.processEvent_cases h
  · exact .inr (.hangUp evset answers fd hup)
  · cases wait with
    | true => exact .inr (.received evset answers fd _ hs (.inr rfl))
    | false =>
      rcases (StreamConn.recvPkt_received hrecv).1.status with he | he
      · exact .inl he
      · exact .inr (.received evset answers fd _ hs (.inl he))
  · exact .inr (.established evset answers fd hs)
  · exact .inl rfl

theorem call_moves {p' : TcpProxy} {call : ProxyCall}
    (h : p.call call io = some (update, p', io')) :
    p'.conn.status = p.conn.status ∨ p.StatusMove call p'.conn.status := by
  cases call with
  | connect pkt req answer => exact connect_moves (onConn_some h).1
  | confirmConnect pkt =>
    obtain ⟨⟨conn, io₁⟩, hconn, ⟨⟩⟩ := map_eq_some_iff.mp h
    obtain ⟨rfl, _⟩ := StreamConn.confirmConnect_spec hconn
    exact .inl rfl
  | getpeername | pushOpRequest =>
    obtain ⟨io₁, _, ⟨⟩⟩ := map_eq_some_iff.mp h
    exact .inl rfl
  | sendmsg pkt answer =>
    obtain ⟨⟨last, hc⟩, _⟩ := StreamConn.sendmsg_spec (onConn_some h).1
    exact .inl (by rw [hc])
  | sendtoAddr | sendtoData | shutdown | release =>
    cases h
    exact .inl rfl
  | listen pkt req portMap bind listen =>
    obtain ⟨_, ⟨h0, rfl⟩ | ⟨_, rfl⟩⟩ := listen_spec h
    · exact .inr (.listening pkt req portMap bind listen h0)
    · exact .inl rfl
  | accept req =>
    obtain ⟨_, rfl, _⟩ | ⟨_, _, rfl, _⟩ | ⟨hp, hb, rfl, _⟩ := accept_spec h
    · exact .inl rfl
    · exact .inl rfl
    · exact .inr (.waiting req hp (by simp [TsiAcceptReq.blocking, hb]))
  | updatePeerCredit pkt =>
    cases h
    exact .inr (.credit pkt)
  | processOpResponse pkt =>
    cases h
    exact .inr (.response pkt)
  | enqueueAccept =>
    obtain ⟨⟨p₁, io₁⟩, henq, ⟨⟩⟩ := map_eq_some_iff.mp h
    obtain ⟨hs, rfl, _⟩ | ⟨_, rfl, _⟩ := enqueueAccept_spec henq
    · exact .inr (.accepted hs)
    · exact .inl rfl
  | processEvent evset answers fd => exact processEvent_moves (onConn_some h).1

end TcpProxy

/-! ## Leaving a final state -/

def ProxyCall.connects : ProxyCall → Bool
  | connect _ _ .ok | connect _ _ .inProgress | updatePeerCredit _ | processOpResponse _ => true
  | _ => false

/-- A call that makes any proxy listen or wait for a connection. -/
def TcpProxy.opens (p : TcpProxy) : ProxyCall → Bool
  | .listen _ req portMap bind listen => p.tryListen req portMap bind listen == 0
  | .accept req => p.pendingAccepts == 0 && req.blocking
  | _ => false

/-- No call connects a listening or closed proxy, or opens a closed one. -/
def ProxyState.RespectsStatus (s : ProxyState M) : ProxyEvent M → Prop
  | .others _ => True
  | .call call => ∀ p ∈ s.proxy.tcp?,
      (p.conn.status.isListening ∨ p.conn.status = .closed → call.connects = false) ∧
        (p.conn.status = .closed → p.opens call = false)

instance (s : ProxyState M) : (e : ProxyEvent M) → Decidable (s.RespectsStatus e)
  | .others _ => isTrue trivial
  | .call _ => inferInstanceAs (Decidable (∀ p ∈ s.proxy.tcp?, _))

namespace TcpProxy

variable {p p' : TcpProxy} {call : ProxyCall} {io io' : Io M} {update : ProxyUpdate}
  {status : ProxyStatus}

theorem StatusMove.of_closed (h : p.StatusMove call status) (hc : p.conn.status = .closed) :
    status = .closed ∨ call.connects = true ∨ p.opens call = true := by
  cases h with
  | connected | connecting | credit | response => exact .inr (.inl rfl)
  | listening pkt req portMap bind listen h0 => exact .inr (.inr (by simp [opens, h0]))
  | waiting req hp hb => exact .inr (.inr (by simp [opens, hp, hb]))
  | accepted hs | received _ _ _ _ hs | established _ _ _ hs =>
    cases hc.symm.trans hs
  | hangUp => exact .inl rfl

theorem StatusMove.of_listening (h : p.StatusMove call status)
    (hl : p.conn.status.isListening = true) :
    status.isListening = true ∨ status = .closed ∨ call.connects = true := by
  cases h with
  | connected | connecting | credit | response => exact .inr (.inr rfl)
  | listening | waiting | accepted => exact .inl rfl
  | hangUp => exact .inr (.inl rfl)
  | received _ _ _ _ hs | established _ _ _ hs =>
    rw [hs] at hl
    cases hl

theorem delivered_eq (h : p.call call io = some (update, p', io'))
    (hs : p.conn.status ≠ .connected) : io'.delivered = io.delivered := by
  cases call_effect h with
  | quiet hq | credit pkt _ hq => exact hq.delivered
  | receive _ _ _ _ _ _ _ _ hconn _ _ => exact absurd hconn hs

end TcpProxy

variable {s s' : ProxyState M} {e : ProxyEvent M}

theorem ProxyState.step_tcp {p : TcpProxy} {call : ProxyCall} (hp : s.proxy = .tcp p)
    (h : s.step (.call call) = some s') :
    ∃ update p', p.call call s.io = some (update, p', s'.io) ∧ s'.proxy = .tcp p' := by
  obtain ⟨update, hcall⟩ := step_call h
  rw [hp] at hcall
  obtain ⟨⟨u, p', io'⟩, hcall, he⟩ := map_eq_some_iff.mp hcall
  obtain ⟨_, hp', rfl⟩ := by simpa using he
  exact ⟨u, p', hcall, hp'.symm⟩

/-- A closed proxy that has delivered `ds`. -/
def ClosedWith (ds : List Delivery) (s : ProxyState M) : Prop :=
  ∃ p, s.proxy = .tcp p ∧ p.conn.status = .closed ∧ s.io.delivered = ds

theorem ClosedWith.step {ds : List Delivery} (h : ClosedWith ds s) (hr : s.RespectsStatus e)
    (hs : s.step e = some s') : ClosedWith ds s' := by
  obtain ⟨p, hp, hc, hd⟩ := h
  cases e with
  | others rx =>
    obtain rfl := ProxyState.step_others hs
    exact ⟨p, hp, hc, hd⟩
  | call call =>
    obtain ⟨update, p', hcall, hp'⟩ := ProxyState.step_tcp hp hs
    obtain ⟨hcon', hop'⟩ := hr p (by rw [hp]; rfl)
    refine ⟨p', hp', ?_, (delivered_eq hcall (by simp [hc])).trans hd⟩
    rcases call_moves hcall with he | hm
    · exact he.trans hc
    · rcases hm.of_closed hc with he | hcon | hop
      · exact he
      · simp [hcon' (.inr hc)] at hcon
      · simp [hop' hc] at hop

def ListensOrClosed (s : ProxyState M) : Prop :=
  ∃ p, s.proxy = .tcp p ∧ (p.conn.status.isListening ∨ p.conn.status = .closed)

theorem ListensOrClosed.step (h : ListensOrClosed s) (hr : s.RespectsStatus e)
    (hs : s.step e = some s') : ListensOrClosed s' := by
  obtain ⟨p, hp, hl | hc⟩ := h
  · cases e with
    | others rx =>
      obtain rfl := ProxyState.step_others hs
      exact ⟨p, hp, .inl hl⟩
    | call call =>
      obtain ⟨update, p', hcall, hp'⟩ := ProxyState.step_tcp hp hs
      have hcon' := (hr p (by rw [hp]; rfl)).1
      refine ⟨p', hp', ?_⟩
      rcases call_moves hcall with he | hm
      · exact .inl (he ▸ hl)
      · rcases hm.of_listening hl with he | he | hcon
        · exact .inl he
        · exact .inr he
        · simp [hcon' (.inl hl)] at hcon
  · obtain ⟨p', hp', hc', _⟩ := ClosedWith.step ⟨p, hp, hc, rfl⟩ hr hs
    exact ⟨p', hp', .inr hc'⟩

/-- **Final states.** In every run in which no call connects a listening or closed TCP proxy or
opens a closed one: a closed proxy stays closed and delivers nothing more, and a listening one is
never connected. -/
theorem closed_final_listening_apart {s s' : ProxyState M} {es : List (ProxyEvent M)}
    {p : TcpProxy} (hp : s.proxy = .tcp p)
    (hc : Along ProxyState.step ProxyState.RespectsStatus s es)
    (hr : run ProxyState.step s es = some s') :
    (p.conn.status = .closed →
      s'.proxy.status = .closed ∧ s'.io.delivered = s.io.delivered) ∧
    (p.conn.status.isListening = true → s'.proxy.status ≠ .connected) := by
  constructor
  · intro hcl
    obtain ⟨p', hp', hs, hd⟩ := along_invariant (P := ClosedWith s.io.delivered)
      (fun t e t' h hr hs => h.step hr hs) ⟨p, hp, hcl, rfl⟩ hc hr
    exact ⟨by rw [hp']; exact hs, hd⟩
  · intro hl
    obtain ⟨p', hp', hs⟩ := along_invariant (P := ListensOrClosed)
      (fun t e t' h hr hs => h.step hr hs) ⟨p, hp, .inl hl⟩ hc hr
    rw [hp']
    show p'.conn.status ≠ .connected
    intro he
    simp [he, ProxyStatus.isListening] at hs

def smallTcp (status : ProxyStatus) : ProxyState FlatMemory :=
  let p := TcpProxy.new 1 3 1024 2048 1025 7
  { smallProxy 8 4 with proxy := .tcp { p with conn := { p.conn with status } } }

/-- Data after the end of the connection is not read. -/
theorem smallTcp_closed :
    ∃ t, run ProxyState.step (smallTcp .closed)
        [.call (.processEvent .IN [.ok [9]] (.error eagain)), .call .release] = some t ∧
      t.proxy.status = .closed ∧ t.io.delivered = [] := by
  have hr : (run ProxyState.step (smallTcp .closed)
      [.call (.processEvent .IN [.ok [9]] (.error eagain)), .call .release]).isSome := by
    decide +kernel
  obtain ⟨t, ht⟩ := isSome_iff_exists.mp hr
  exact ⟨t, ht, (closed_final_listening_apart rfl (by decide +kernel) ht).1 rfl⟩

/-- A connected proxy reads the end of its connection, resets it and is closed. A credit update
connects it again, and the next data is delivered. The same happens to a listening proxy that is
sent a response. -/
theorem closed_revived :
    ((run ProxyState.step (smallTcp .connected)
        [.call (.updatePeerCredit firstPacket),
          .call (.processEvent .IN [.ok []] (.error eagain))]).map fun t =>
        (t.proxy.status, t.io.pushed, t.io.delivered)) = some (.closed, [.reset 1024 2048], []) ∧
      ((run ProxyState.step (smallTcp .connected)
        [.call (.updatePeerCredit firstPacket),
          .call (.processEvent .IN [.ok []] (.error eagain)),
          .call (.updatePeerCredit firstPacket),
          .call (.processEvent .IN [.ok [9]] (.error eagain))]).map fun t =>
        (t.proxy.status, t.io.delivered.map Delivery.payload)) = some (.connected, [[9]]) ∧
      (smallTcp .listening).proxy.status.isListening = true ∧
      ((run ProxyState.step (smallTcp .listening)
        [.call (.processOpResponse firstPacket)]).map fun t => t.proxy.status) =
          some .connected := by
  decide +kernel

end Shelter.Vsock
