import Shelter.Vsock.TcpStates

/-!
# Accepting connections

A listening proxy is told of each connection the guest has confirmed, and asked by the guest for
connections. Connections nobody asked for are counted in `pending_accepts`. A request that cannot
be answered is remembered in the status alone, as `WaitingOnAccept`, so it is lost when another
call assigns the status, `listen` included: `try_listen` takes a waiting proxy for a listening one
and succeeds, and `listen` then makes it `Listening`.
-/

open Bytes Run

namespace Shelter.Vsock

open Virtio ProxyState TcpProxy ProxyCall Option

variable {M : Type} [GuestMemory M]

def MuxerRx.acceptResult? : MuxerRx → Option U32
  | .acceptResponse _ _ result => some result
  | _ => none

def Io.answers (io : Io M) : List U32 := io.pushed.filterMap MuxerRx.acceptResult?

variable {io io' : Io M} {cid : U64} {rx : MuxerRx} {update : ProxyUpdate} {p p' : TcpProxy}

theorem Io.answers_push {result : U32} (h : io.push cid rx = some io')
    (hrx : rx.acceptResult? = some result) : io'.answers = io.answers ++ [result] := by
  simp [answers, (Io.push_logs h).1, hrx]

theorem Io.answers_push_other (h : io.push cid rx = some io') (hrx : rx.acceptResult? = none) :
    io'.answers = io.answers := by
  simp [answers, (Io.push_logs h).1, hrx]

namespace ProxyCall

def isAccept : ProxyCall → Bool
  | accept _ => true
  | _ => false

def isEnqueueAccept : ProxyCall → Bool
  | enqueueAccept => true
  | _ => false

end ProxyCall

namespace TcpProxy

/-- What a call does to the accounts: the pending connections and the answers given. -/
inductive AcceptEffect (p p' : TcpProxy) (io io' : Io M) : ProxyCall → Prop
  | served (req : TsiAcceptReq) : 0 < p.pendingAccepts →
    p' = { p with pendingAccepts := p.pendingAccepts - 1 } → io'.answers = io.answers ++ [0] →
    AcceptEffect p p' io io' (.accept req)
  | refused (req : TsiAcceptReq) : p.pendingAccepts = 0 → req.blocking = false → p' = p →
    io'.answers = io.answers ++ [ewouldblock.neg] → AcceptEffect p p' io io' (.accept req)
  | waits (req : TsiAcceptReq) : p.pendingAccepts = 0 → req.blocking = true →
    p' = { p with conn := { p.conn with status := .waitingOnAccept } } →
    io'.answers = io.answers → AcceptEffect p p' io io' (.accept req)
  | answered : p.conn.status = .waitingOnAccept →
    p' = { p with conn := { p.conn with status := .listening } } →
    io'.answers = io.answers ++ [0] → AcceptEffect p p' io io' .enqueueAccept
  | queued : p.conn.status ≠ .waitingOnAccept →
    p' = { p with pendingAccepts := p.pendingAccepts + 1 } → io'.answers = io.answers →
    AcceptEffect p p' io io' .enqueueAccept
  | other (call : ProxyCall) : call.isAccept = false → call.isEnqueueAccept = false →
    p'.pendingAccepts = p.pendingAccepts → io'.answers = io.answers →
    AcceptEffect p p' io io' call

end TcpProxy

theorem StreamConn.processEvent_answers {c c' : StreamConn} {evset : EventSet}
    {answers : List RecvAnswer} {fd : Except Errno ℕ}
    (h : c.processEvent evset answers fd io = some (update, c', io')) :
    io'.answers = io.answers := by
  obtain ⟨_, _, ⟨r, hio⟩ | hio⟩ |
    ⟨_, _, _, haveUsed, wait, c₁, io₁, hrecv, _, ⟨rfl, _⟩ | ⟨_, hio⟩⟩ |
    ⟨_, _, _, _, hio⟩ | ⟨_, _, rfl⟩ := processEvent_cases h
  · exact Io.answers_push_other hio rfl
  · exact Io.answers_push_other hio rfl
  · unfold Io.answers
    rw [(recvPkt_received hrecv).2.2.1]
  · refine (Io.answers_push_other hio rfl).trans ?_
    unfold Io.answers
    rw [(recvPkt_received hrecv).2.2.1]
  · exact Io.answers_push_other hio rfl
  · rfl

theorem TcpProxy.call_accepts {call : ProxyCall} (h : p.call call io = some (update, p', io')) :
    p.AcceptEffect p' io io' call := by
  cases call with
  | connect pkt req answer =>
    obtain ⟨hconn, hp⟩ := onConn_some h
    refine .other _ rfl rfl (by rw [hp]) ?_
    obtain ⟨_, rfl | ⟨r, hio⟩⟩ := StreamConn.connect_spec hconn
    · rfl
    · exact Io.answers_push_other hio rfl
  | confirmConnect pkt =>
    obtain ⟨⟨conn, io₁⟩, hconn, ⟨⟩⟩ := map_eq_some_iff.mp h
    refine .other _ rfl rfl rfl ?_
    exact Io.answers_push_other (StreamConn.confirmConnect_spec hconn).2 rfl
  | getpeername | pushOpRequest =>
    obtain ⟨io₁, hio, ⟨⟩⟩ := map_eq_some_iff.mp h
    exact .other _ rfl rfl rfl (Io.answers_push_other hio rfl)
  | sendmsg pkt answer =>
    obtain ⟨hconn, hp⟩ := onConn_some h
    refine .other _ rfl rfl (by rw [hp]) ?_
    obtain ⟨_, io₁, rfl, rfl | hio⟩ := StreamConn.sendmsg_spec hconn
    · rfl
    · have ha := Io.answers_push_other hio rfl
      exact ha
  | sendtoAddr | sendtoData | shutdown | release | updatePeerCredit | processOpResponse =>
    cases h
    exact .other _ rfl rfl rfl rfl
  | listen pkt req portMap bind listen =>
    obtain ⟨hio, ⟨_, rfl⟩ | ⟨_, rfl⟩⟩ := listen_spec h
    all_goals exact .other _ rfl rfl rfl (Io.answers_push_other hio rfl)
  | accept req =>
    obtain ⟨hpos, hp, hio⟩ | ⟨h0, hb, hp, hio⟩ | ⟨h0, hb, hp, rfl⟩ := accept_spec h
    · exact .served req hpos hp (Io.answers_push hio rfl)
    · exact .refused req h0 (by simpa [TsiAcceptReq.blocking] using hb) hp (Io.answers_push hio rfl)
    · exact .waits req h0 (by simpa [TsiAcceptReq.blocking] using hb) hp rfl
  | enqueueAccept =>
    obtain ⟨⟨p₁, io₁⟩, henq, ⟨⟩⟩ := map_eq_some_iff.mp h
    obtain ⟨hs, hp, hio⟩ | ⟨hs, hp, rfl⟩ := enqueueAccept_spec henq
    · exact .answered hs hp (Io.answers_push hio rfl)
    · exact .queued hs hp rfl
  | processEvent evset answers fd =>
    obtain ⟨hconn, hp⟩ := onConn_some h
    exact .other _ rfl rfl (by rw [hp]) (StreamConn.processEvent_answers hconn)

/-! ## Accounts of a run -/

variable (s : ProxyState M)

namespace ProxyState

/-- The connections handed out to the guest, and those it has not asked for. -/
def handedOut : ℕ :=
  s.io.answers.count 0 + (s.proxy.tcp?.map pendingAccepts).getD 0

def taken : ℕ :=
  s.io.answers.length + if s.proxy.status = .waitingOnAccept then 1 else 0

end ProxyState

namespace ProxyEvent

def isAccept : ProxyEvent M → Bool
  | call c => c.isAccept
  | others _ => false

def isEnqueueAccept : ProxyEvent M → Bool
  | call c => c.isEnqueueAccept
  | others _ => false

end ProxyEvent

/-- A TCP proxy that has no pending connection while a request waits. -/
def WaitsForNew : Prop :=
  ∃ p, s.proxy = .tcp p ∧ (p.conn.status = .waitingOnAccept → p.pendingAccepts = 0)

def ProxyCall.forgetsAccept : ProxyCall → Bool
  | accept req => req.blocking
  | listen .. => true
  | processEvent evset _ _ => evset.hangUp
  | call => call.connects

def ProxyState.KeepsAccept : ProxyEvent M → Prop
  | .others _ => True
  | .call call => s.proxy.status = .waitingOnAccept → call.forgetsAccept = false

instance : (e : ProxyEvent M) → Decidable (s.KeepsAccept e)
  | .others _ => isTrue trivial
  | .call call => inferInstanceAs
      (Decidable (s.proxy.status = .waitingOnAccept → call.forgetsAccept = false))

theorem TcpProxy.waiting_of_call {call : ProxyCall} (h : p.call call io = some (update, p', io'))
    (hacc : call.isAccept = false) (hw : p'.conn.status = .waitingOnAccept) :
    p.conn.status = .waitingOnAccept := by
  rcases call_moves h with he | hm
  · exact he ▸ hw
  · rw [hw] at hm
    cases hm with
    | waiting => simp [isAccept] at hacc
    | received _ _ _ _ _ hst => simp at hst

theorem TcpProxy.waiting_iff {call : ProxyCall} (h : p.call call io = some (update, p', io'))
    (hacc : call.isAccept = false) (henq : call.isEnqueueAccept = false)
    (hk : p.conn.status = .waitingOnAccept → call.forgetsAccept = false) :
    p'.conn.status = .waitingOnAccept ↔ p.conn.status = .waitingOnAccept := by
  constructor
  · exact waiting_of_call h hacc
  · intro hw
    have hf := hk hw
    rcases call_moves h with he | hm
    · exact he.trans hw
    generalize p'.conn.status = status at hm ⊢
    cases hm with
    | connected | connecting | credit | response | listening =>
      simp [forgetsAccept, connects] at hf
    | waiting => simp [isAccept] at hacc
    | accepted => simp [isEnqueueAccept] at henq
    | hangUp evset _ _ hup => simp [forgetsAccept, hup] at hf
    | received _ _ _ _ hs | established _ _ _ hs =>
      cases hw.symm.trans hs

namespace WaitsForNew

variable {s s' : ProxyState M} {e : ProxyEvent M}

theorem count_snoc_zero (rs : List U32) : (rs ++ [0]).count 0 = rs.count 0 + 1 := by simp

theorem count_snoc_ewouldblock (rs : List U32) :
    (rs ++ [ewouldblock.neg]).count 0 = rs.count 0 := by
  rw [List.count_append, show [ewouldblock.neg].count 0 = 0 by decide, Nat.add_zero]

/-- A call keeps the account of connections: each confirmed one is handed out or pending. -/
theorem step (h : WaitsForNew s) (hs : s.step e = some s') :
    WaitsForNew s' ∧ s'.handedOut = s.handedOut + if e.isEnqueueAccept then 1 else 0 := by
  obtain ⟨p, hp, hw⟩ := h
  cases e with
  | others rx =>
    obtain rfl := step_others hs
    exact ⟨⟨p, hp, hw⟩, rfl⟩
  | call call =>
    obtain ⟨update, p', hcall, hp'⟩ := step_tcp hp hs
    simp only [handedOut, hp, hp', Proxy.tcp?, map_some, getD_some,
      ProxyEvent.isEnqueueAccept]
    cases call_accepts hcall with
    | served req hpos hpp ha =>
      subst hpp
      refine ⟨⟨_, hp', fun hst => ?_⟩, ?_⟩
      · have := hw hst
        omega
      · rw [ha, count_snoc_zero]
        show _ + (p.pendingAccepts - 1) = _ + p.pendingAccepts + 0
        omega
    | refused req h0 _ hpp ha =>
      subst hpp
      refine ⟨⟨_, hp', hw⟩, ?_⟩
      rw [ha, count_snoc_ewouldblock]
      rfl
    | waits req h0 _ hpp ha =>
      subst hpp
      refine ⟨⟨_, hp', fun _ => h0⟩, ?_⟩
      rw [ha]
      rfl
    | answered hst hpp ha =>
      subst hpp
      refine ⟨⟨_, hp', fun _ => hw hst⟩, ?_⟩
      rw [ha, count_snoc_zero]
      show _ + p.pendingAccepts = _ + p.pendingAccepts + 1
      omega
    | queued hst hpp ha =>
      subst hpp
      refine ⟨⟨_, hp', fun hst' => absurd hst' hst⟩, ?_⟩
      rw [ha]
      rfl
    | other _ hacc henq hpend ha =>
      refine ⟨⟨p', hp', fun hst' => ?_⟩, by simp [ha, hpend, henq]⟩
      rw [hpend]
      exact hw (waiting_of_call hcall hacc hst')

/-- A call that does not forget keeps the account of requests: each is answered or waits. -/
theorem step_taken (h : WaitsForNew s) (hk : s.KeepsAccept e) (hs : s.step e = some s') :
    s'.taken = s.taken + if e.isAccept then 1 else 0 := by
  obtain ⟨p, hp, hw⟩ := h
  cases e with
  | others rx =>
    obtain rfl := step_others hs
    rfl
  | call call =>
    obtain ⟨update, p', hcall, hp'⟩ := step_tcp hp hs
    have hk' : p.conn.status = .waitingOnAccept → call.forgetsAccept = false := by
      intro hst
      exact hk (by rw [hp]; exact hst)
    simp only [taken, hp, hp', Proxy.status]
    cases call_accepts hcall with
    | served req _ hpp ha | refused req _ _ hpp ha =>
      subst hpp
      rw [ha, List.length_append]
      exact Nat.add_right_comm ..
    | waits req _ hb hpp ha =>
      subst hpp
      have hne : p.conn.status ≠ .waitingOnAccept := by
        intro hst
        simp [forgetsAccept, hb] at hk'
        exact hk' hst
      rw [ha, if_neg hne]
      rfl
    | answered hst hpp ha =>
      subst hpp
      rw [ha, if_pos hst, List.length_append]
      rfl
    | queued hst hpp ha =>
      subst hpp
      rw [ha]
      rfl
    | other _ hacc henq _ ha =>
      have hev : (ProxyEvent.call call : ProxyEvent M).isAccept = false := hacc
      simp only [ha, hev, waiting_iff hcall hacc henq hk']
      rfl

end WaitsForNew

/-- **Accepts.** In every run of a TCP proxy from its creation: the connections handed out and
the pending ones are the confirmed ones, and a waiting request has no pending connection. If no
call assigns the status of a waiting proxy, every accept request is answered or waits, and then
the next confirmed connection answers it. -/
theorem accepts_accounted {s s' : ProxyState M} {es : List (ProxyEvent M)} {p : TcpProxy}
    (hp : s.proxy = .tcp p) (hcr : s.proxy.Created) (hpushed : s.io.pushed = [])
    (hr : run ProxyState.step s es = some s') :
    ∃ p', s'.proxy = .tcp p' ∧
      s'.io.answers.count 0 + p'.pendingAccepts = es.countP ProxyEvent.isEnqueueAccept ∧
      (p'.conn.status = .waitingOnAccept → p'.pendingAccepts = 0) ∧
      (Along ProxyState.step ProxyState.KeepsAccept s es →
        es.countP ProxyEvent.isAccept =
            s'.io.answers.length + (if p'.conn.status = .waitingOnAccept then 1 else 0) ∧
          (p'.conn.status = .waitingOnAccept →
            ∀ t, s'.step (.call .enqueueAccept) = some t →
              t.io.answers = s'.io.answers ++ [0])) := by
  obtain ⟨h0, hne⟩ := Proxy.Created.accepts (hp ▸ hcr)
  have hw : WaitsForNew s := ⟨p, hp, fun _ => h0⟩
  have hans : s.io.answers = [] := by simp [Io.answers, hpushed]
  have hh : s.handedOut = 0 := by simp [handedOut, hans, hp, Proxy.tcp?, h0]
  have ht : s.taken = 0 := by simp [taken, hans, hp, Proxy.status, hne]
  obtain ⟨p', hp', hw'⟩ := run_invariant (P := WaitsForNew)
    (fun t e t' h hs => (h.step hs).1) hw hr
  refine ⟨p', hp', ?_, hw', fun hk => ⟨?_, ?_⟩⟩
  · have := along_countP (f := handedOut) (fun t e t' h _ hs => h.step hs) hw
      (along_true s es) hr
    rw [hh, Nat.zero_add] at this
    rw [← this]
    simp [handedOut, hp', Proxy.tcp?]
  · have := along_countP (f := taken)
      (fun t e t' h hk hs => ⟨(h.step hs).1, h.step_taken hk hs⟩) hw hk hr
    rw [ht, Nat.zero_add] at this
    rw [← this]
    simp [taken, hp', Proxy.status]
  · intro hst t hs
    obtain ⟨update, p'', hcall, _⟩ := step_tcp hp' hs
    cases call_accepts hcall with
    | answered _ _ ha => exact ha
    | queued hne => exact absurd hst hne
    | other _ _ henq => simp [isEnqueueAccept] at henq

/-! A guest that listens and asks for a connection. -/

def listenReq : TsiListenReq := ⟨2048, ⟨Vector.replicate 4 0⟩, 80, 80, 1⟩

def listenAndAccept : List (ProxyEvent FlatMemory) :=
  [.call (.listen firstPacket listenReq none (.ok ()) (.ok ())), .call (.accept ⟨2048, 0⟩)]

theorem listenAndAccept_accounted :
    ∃ t p, run ProxyState.step (smallProxy 8 4) listenAndAccept = some t ∧ t.proxy = .tcp p ∧
      p.conn.status = .waitingOnAccept ∧ p.pendingAccepts = 0 ∧
      listenAndAccept.countP ProxyEvent.isAccept = t.io.answers.length + 1 := by
  obtain ⟨t, ht, hst⟩ : ∃ t, run ProxyState.step (smallProxy 8 4) listenAndAccept = some t ∧
      t.proxy.status = .waitingOnAccept := by decide +kernel
  obtain ⟨p, hp, _, h0, hk⟩ := accepts_accounted rfl (.tcp ..) rfl ht
  have hst' : p.conn.status = .waitingOnAccept := by
    rw [hp] at hst
    exact hst
  have hacc := (hk (by decide +kernel)).1
  rw [if_pos hst'] at hacc
  exact ⟨t, p, ht, hp, hst', h0 hst', hacc⟩

def listenAgain : List (ProxyEvent FlatMemory) :=
  listenAndAccept ++
    [.call (.listen firstPacket listenReq none (.ok ()) (.ok ())), .call .enqueueAccept]

/-- One request was made and has no answer, yet nothing waits for the connection that came. -/
theorem listen_forgets_accept :
    (smallProxy 8 4).proxy.Created ∧ listenAgain.countP ProxyEvent.isAccept = 1 ∧
      ((run ProxyState.step (smallProxy 8 4) listenAgain).map fun t =>
        (t.proxy.status, t.proxy.tcp?.map pendingAccepts, t.io.answers)) =
          some (.listening, some 1, []) :=
  ⟨.tcp .., by decide +kernel, by decide +kernel⟩

end Shelter.Vsock
