import Shelter.Vsock.Muxer

/-!
# The write lock of the proxy map

A handler waits for itself when it comes to `process_proxy_update` with a guard and the update
removes a proxy there and then. Three handlers come with a guard. `sendmsg` and the connection of
a Unix proxy never ask for a removal; `release`, which a reset packet calls, does. The release
request of the control port calls it too, and has dropped its guard by then.
-/

open Bytes

namespace Shelter.Vsock

open Virtio Option

variable {M : Type} [GuestMemory M]

/-! ## Updates that keep the proxy -/

variable {c c' : StreamConn} {pkt : VsockPacket} {answer : SendAnswer} {io io' : Io M}

theorem StreamConn.sendmsg_keeps {update : ProxyUpdate}
    (h : c.sendmsg pkt answer io = some (update, c', io')) : update.removeProxy = .keep := by
  unfold sendmsg at h
  dsimp only at h
  split_ifs at h
  · obtain ⟨_, _, ⟨⟩⟩ := bind_eq_some_iff.mp h
    rfl
  · cases h
    rfl

theorem Proxy.sendmsg_keeps {p p' : Proxy} {update : ProxyUpdate}
    (h : p.call (.sendmsg pkt answer) io = some (update, p', io')) :
    update.removeProxy = .keep := by
  cases p with
  | tcp p | unix p =>
    obtain ⟨_, hcall, ⟨⟩⟩ := map_eq_some_iff.mp h
    obtain ⟨_, hsend, ⟨⟩⟩ := map_eq_some_iff.mp hcall
    exact StreamConn.sendmsg_keeps hsend
  | udp p =>
    cases h
    rfl

theorem StreamConn.connect_keeps {answer : ConnectAnswer} {update : ProxyUpdate}
    (h : c.connect answer io = some (update, c', io')) : update.removeProxy = .keep := by
  have hans : ∀ (c : StreamConn) (result : U32),
      c.connectAnswered result io = some (update, c', io') → update.removeProxy = .keep := by
    intro c result h
    unfold connectAnswered at h
    split_ifs at h
    · cases h
      rfl
    all_goals
      obtain ⟨_, _, ⟨⟩⟩ := map_eq_some_iff.mp h
      rfl
  cases answer with
  | ok | inProgress | err _ => exact hans _ _ h

theorem Proxy.release_eq (p : Proxy) (io : Io M) :
    p.call .release io = some ({ removeProxy := removalOf p.status }, p, io) := by
  cases p <;> rfl

namespace Muxer

variable {s s' : Muxer M} {a : HostAnswers} {pkt : VsockPacket} {pc : DevicePc}

theorem connectUnix_keeps {path : String} {fd : ℕ} {update : ProxyUpdate} {unix : UnixProxy}
    (h : s.connectUnix a pkt path fd = some (update, unix, io)) : update.removeProxy = .keep := by
  obtain ⟨⟨u₁, p₁, io₁⟩, hconn, h⟩ := bind_eq_some_iff.mp h
  obtain ⟨⟨c, io₂⟩, _, ⟨⟩⟩ := map_eq_some_iff.mp h
  unfold UnixProxy.connect at hconn
  split_ifs at hconn
  obtain ⟨_, hc, ⟨⟩⟩ := map_eq_some_iff.mp hconn
  exact StreamConn.connect_keeps hc

end Muxer

/-! ## Handlers -/

/-- The update can be carried out: no guard is held, or nothing is removed. -/
def Pending.Harmless (p : Pending) : Prop := p.guard = .none ∨ p.update.removeProxy = .keep

def DevicePc.Harmless : DevicePc → Prop
  | .idle => True
  | .accept _ p | .update p => p.Harmless

omit [GuestMemory M] in
theorem Pending.Harmless.update {p : Pending} (h : p.Harmless) (s : Muxer M) :
    ∃ s', s.processProxyUpdate p = some s' := by
  unfold Muxer.processProxyUpdate Muxer.removeLocked
  rcases h with h | h
  · simp only [h, if_true]
    split
    · exact ⟨_, rfl⟩
    · exact ⟨_, rfl⟩
    · split_ifs <;> exact ⟨_, rfl⟩
  · rw [h]
    exact ⟨s, rfl⟩

theorem DevicePc.Harmless.finish {pc : DevicePc} (h : pc.Harmless) (s : Muxer M) :
    pc.finish s ≠ .deadlock := by
  cases pc with
  | idle => simp [DevicePc.finish]
  | update p =>
    obtain ⟨s', hs'⟩ := Pending.Harmless.update h s
    simp [DevicePc.finish, hs']
  | accept parentId p =>
    cases hc : s.call parentId .enqueueAccept with
    | none => simp [DevicePc.finish, hc]
    | some r =>
      obtain ⟨s', hs'⟩ := Pending.Harmless.update h r.2
      simp [DevicePc.finish, hc, hs']

namespace Muxer

variable {s s' : Muxer M} {a : HostAnswers} {pkt : VsockPacket} {pc : DevicePc} {id : U64}

theorem callOnly_harmless {c : ProxyCall} (h : s.callOnly id c = some (pc, s')) : pc.Harmless := by
  obtain ⟨_, _, ⟨⟩⟩ := map_eq_some_iff.mp h
  trivial

theorem callThenUpdate_some {guard : Guard} {c : ProxyCall}
    (h : s.callThenUpdate guard id c = some (pc, s')) :
    (s.proxyMap id = none ∧ pc = .idle ∧ s' = s) ∨
      ∃ e update proxy io, s.proxyMap id = some e ∧
        e.proxy.call c s.io = some (update, proxy, io) ∧
        pc = .update ⟨guard, id, e.inst, update⟩ ∧
        s' = { s with proxyMap := Function.update s.proxyMap id (some ⟨e.inst, proxy⟩), io } := by
  obtain ⟨⟨r, s₁⟩, hcall, he⟩ := map_eq_some_iff.mp h
  unfold call at hcall
  split at hcall
  · next hn =>
    cases hcall
    cases he
    exact .inl ⟨hn, rfl, rfl⟩
  · next e hs =>
    obtain ⟨⟨update, proxy, io⟩, hp, ⟨⟩⟩ := map_eq_some_iff.mp hcall
    cases he
    exact .inr ⟨e, update, proxy, io, hs, hp, rfl, rfl⟩

theorem processProxyCreate_harmless (s : Muxer M) (a : HostAnswers) (pkt : VsockPacket) :
    (s.processProxyCreate a pkt).1.Harmless := by
  unfold processProxyCreate
  split
  · dsimp only
    split_ifs <;> trivial
  · trivial

theorem processOpRequest_harmless (h : s.processOpRequest a pkt = some (pc, s')) : pc.Harmless := by
  revert h
  refine forall_mem_ite (P := fun r => r.1.Harmless) (fun _ r hr => callOnly_harmless hr)
    (fun _ => ?_) (pc, s')
  split
  · rintro r ⟨⟩
    trivial
  · rintro r ⟨⟩
  · intro r h
    obtain ⟨⟨update, unix, io⟩, hconn, rfl⟩ := map_eq_some_iff.mp h
    exact .inr (connectUnix_keeps hconn)

theorem processOpResponse_harmless (h : s.processOpResponse pkt = some (pc, s')) : pc.Harmless := by
  obtain ⟨⟨r, s₁⟩, _, he⟩ := map_eq_some_iff.mp h
  have hpc : pc = _ := (congrArg Prod.fst he).symm
  rw [hpc]
  cases r with
  | none => trivial
  | some r =>
    dsimp only
    split <;> exact .inl rfl

theorem sendPkt_harmless (hrst : ¬ s.IsRst pkt) : ∀ r ∈ s.sendPkt a pkt, r.1.Harmless := by
  refine sendPkt_rule trivial (fun _ => processProxyCreate_harmless s a pkt) ?_
    (fun id c r hr => callOnly_harmless hr) (fun _ r hr => processOpRequest_harmless hr)
    (fun _ r hr => processOpResponse_harmless hr) fun io _ => trivial
  rintro guard id c hg ⟨pc, s'⟩ hr
  obtain ⟨_, rfl, _⟩ | ⟨_, _, _, _, _, hcall, rfl, _⟩ := callThenUpdate_some hr
  · trivial
  · cases hg with
    | dropped => exact .inl rfl
    | sendmsg answer => exact .inr (Proxy.sendmsg_keeps hcall)
    | release h => exact absurd h hrst

variable {p : Pending}

theorem finish_update_iff :
    (DevicePc.update p).finish s = .deadlock ↔ s.processProxyUpdate p = none := by
  cases h : s.processProxyUpdate p <;> simp [DevicePc.finish, h]

omit [GuestMemory M] in
theorem update_guarded_iff (hg : p.guard ≠ .none) :
    s.processProxyUpdate p = none ↔ p.update.removeProxy = .immediate ∨
      p.update.removeProxy = .deferred ∧ s.reaperAlive = false := by
  unfold processProxyUpdate removeLocked
  cases p.update.removeProxy <;> simp [hg]

theorem handle_rst_iff (hrst : s.IsRst pkt) :
    s.handle a pkt = .deadlock ↔ ∃ e, s.proxyMap (s.streamId pkt) = some e ∧
      (e.proxy.status = .listening ∨ s.reaperAlive = false) := by
  obtain ⟨hd, hcid, hop⟩ := hrst
  have hsend : s.sendPkt a pkt = s.processStreamRst pkt := by
    unfold sendPkt sendStreamPkt
    rw [if_neg hd, if_neg (not_not.mpr hcid)]
    simp only [hop]
    rfl
  unfold handle
  rw [hsend]
  unfold processStreamRst callThenUpdate call
  cases he : s.proxyMap (s.streamId pkt) with
  | none => simp [DevicePc.finish]
  | some e =>
    simp only [Proxy.release_eq, map_some, Option.some.injEq, exists_eq_left']
    rw [finish_update_iff, update_guarded_iff Guard.noConfusion]
    unfold removalOf
    split_ifs with hl <;> simp [hl]

/-- **No self-deadlock.** Whatever the packet, the proxies and the answers of the host: the
handler waits for itself exactly when the packet resets a connection whose proxy listens, or any
connection after the reaper has gone. -/
theorem handle_ne_deadlock_iff (s : Muxer M) (a : HostAnswers) (pkt : VsockPacket) :
    s.handle a pkt ≠ .deadlock ↔ ¬ (s.IsRst pkt ∧ ∃ e, s.proxyMap (s.streamId pkt) = some e ∧
      (e.proxy.status = .listening ∨ s.reaperAlive = false)) := by
  by_cases hrst : s.IsRst pkt
  · rw [ne_eq, handle_rst_iff hrst]
    simp [hrst]
  · refine ⟨fun _ h => hrst h.1, fun _ => ?_⟩
    unfold handle
    split
    · simp
    · next pc s' h => exact (sendPkt_harmless hrst _ h).finish s'

end Muxer

/-! A listening proxy and a packet that resets its connection. -/

/-- A header at 0x1a0 with the operation, the type and the CID of a reset from port 2048 to port
620. -/
def rstMemory : FlatMemory :=
  (((smallMemory.put 0x1a8 (leBytes 8 vsockHostCid.toNat)).put 0x1b0 (leBytes 4 2048)).put 0x1b4
    (leBytes 4 tsiProxyPort.toNat)).put 0x1bc
    (leBytes 2 vsockTypeStream.toNat ++ leBytes 2 vsockOpRst.toNat)

def rstPacket : VsockPacket := ⟨0x1a0, none, 0⟩

def rstProxy (status : ProxyStatus) : Proxy :=
  .tcp ⟨⟨proxyId 2048 tsiProxyPort, 3, tsiProxyPort, 2048, 1024, 7, status, 0, 0, 0, 0, 0, 0⟩, 0, 0⟩

def rstMuxer (status : ProxyStatus) : Muxer FlatMemory where
  cid := 3
  hostPortMap := none
  unixIpcPortMap := none
  proxyMap := Function.update (fun _ => none) (proxyId 2048 tsiProxyPort)
    (some ⟨0, rstProxy status⟩)
  reaperAlive := true
  channel := []
  io := .start ⟨smallQueue, rstMemory, .new⟩
  created := [proxyId 2048 tsiProxyPort]
  removed := []

/-- A reset of a connection whose proxy listens makes the device thread wait for itself. -/
theorem rst_listening_deadlocks : (rstMuxer .listening).handle quietHost rstPacket = .deadlock := by
  rw [Muxer.handle_rst_iff ⟨by decide +kernel, by decide +kernel, by decide +kernel⟩]
  refine ⟨⟨0, rstProxy .listening⟩, ?_, .inl rfl⟩
  rw [show (rstMuxer .listening).streamId rstPacket = proxyId 2048 tsiProxyPort by decide +kernel]
  simp [rstMuxer]

end Shelter.Vsock
