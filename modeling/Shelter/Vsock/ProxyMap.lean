import Shelter.Lib.Run
import Shelter.Vsock.Muxer

/-!
# The proxy map over three threads

The device thread handles packets, the muxer thread socket events, and the reaper removes proxies
some time after they were released. A thread lets go of the map between a call of a proxy and the
update that follows, so the steps of the three interleave there.

The map, the channel and the reaper know a proxy by its id, and an id can be used again. A proxy is
safe if each insertion uses an id that is not in the map and for which no removal is on its way.
The code makes sure of neither: `process_proxy_create` and the insertion of a reverse connection
do not look, and `process_op_request` looks only at the map.
-/

open Bytes Run

namespace Shelter.Vsock

open Virtio Muxer Option List

variable {M : Type} [GuestMemory M]

/-- Where the muxer thread is in the handling of an event: done, about to carry out an update, to
insert the proxy of an accepted connection, or to announce it to the guest. -/
inductive ThreadPc
  | idle
  | update (id : U64) (inst : ℕ) (update : ProxyUpdate)
  | newProxy (parentId : U64) (peerPort : U32) (fd : ℕ)
  | request (id : U64)

structure MuxerSystem (M : Type) where
  muxer : Muxer M
  device : DevicePc
  thread : ThreadPc
  /-- the removals the reaper waits to carry out, each with the number of the proxy it is meant
  for -/
  released : U64 → Option ℕ

/-- A step of one of the threads, or a change of the RX side by the guest. -/
inductive MuxerEvent (M : Type)
  | packet (a : HostAnswers) (pkt : VsockPacket)
  | deviceGoesOn
  | socketEvent (id : U64) (evset : EventSet) (answers : List RecvAnswer)
      (accepted : Except Errno ℕ)
  | threadUpdates
  | threadInserts (localPort : U32)
  | threadAnnounces
  | reaperReceives
  | reaperExpires (id : U64)
  | reaperStops
  | others (rx : RxSide M)

namespace MuxerSystem

def start (cid : U64) (hostPortMap : Option (List (U16 × U16)))
    (unixIpcPortMap : Option (List (U32 × String))) (io : Io M) : MuxerSystem M where
  muxer := ⟨cid, hostPortMap, unixIpcPortMap, fun _ => none, true, [], io, [], []⟩
  device := .idle
  thread := .idle
  released := fun _ => none

/-- The credit request that an update of the muxer thread carries. -/
def pushCredit (m : Muxer M) (update : ProxyUpdate) : Option (Muxer M) :=
  match update.pushCreditReq with
  | some rx => (m.io.push m.cid rx).map fun io => { m with io }
  | none => some m

/-- `process_proxy_update` of the muxer thread, up to the new proxy. -/
def threadUpdate (m : Muxer M) (id : U64) (inst : ℕ) (update : ProxyUpdate) : Option (Muxer M) :=
  (pushCredit m update).bind fun m => m.processProxyUpdate ⟨.none, id, inst, update⟩

/-- One step; `none` if the thread is not there, panics or waits for itself. The reaper may carry
out a removal at any time: the five seconds are not modelled. -/
def step (s : MuxerSystem M) : MuxerEvent M → Option (MuxerSystem M)
  | .packet a pkt =>
    match s.device with
    | .idle => (s.muxer.sendPkt a pkt).map fun (device, muxer) => { s with device, muxer }
    | _ => none
  | .deviceGoesOn =>
    match s.device with
    | .idle => none
    | .accept parentId next => (s.muxer.call parentId .enqueueAccept).map fun (_, muxer) =>
        { s with muxer, device := .update next }
    | .update p => (s.muxer.processProxyUpdate p).map fun muxer =>
        { s with muxer, device := .idle }
  | .socketEvent id evset answers accepted =>
    match s.thread with
    | .idle => (s.muxer.call id (.processEvent evset answers accepted)).map fun (r, muxer) =>
        let thread := match r with
          | some (inst, update) => .update id inst update
          | none => .idle
        { s with muxer, thread }
    | _ => none
  | .threadUpdates =>
    match s.thread with
    | .update id inst update => (threadUpdate s.muxer id inst update).map fun muxer =>
        let thread := match update.newProxy with
          | some (peerPort, fd) => .newProxy id peerPort fd
          | none => .idle
        { s with muxer, thread }
    | _ => none
  | .threadInserts localPort =>
    match s.thread with
    | .newProxy parentId peerPort fd =>
      let id := proxyId peerPort localPort
      let p := TcpProxy.newReverse id s.muxer.cid parentId localPort peerPort fd
      some { s with muxer := s.muxer.insert id (.tcp p), thread := .request id }
    | _ => none
  | .threadAnnounces =>
    match s.thread with
    | .request id => (s.muxer.call id .pushOpRequest).map fun (_, muxer) =>
        { s with muxer, thread := .idle }
    | _ => none
  | .reaperReceives =>
    match s.muxer.channel with
    | (id, inst) :: channel => some { s with
        muxer := { s.muxer with channel }
        released := Function.update s.released id (some inst) }
    | [] => none
  | .reaperExpires id =>
    (s.released id).map fun inst =>
      { s with
        muxer := s.muxer.remove id inst, released := Function.update s.released id none }
  | .reaperStops => some { s with muxer := { s.muxer with reaperAlive := false } }
  | .others rx => some { s with
      muxer := { s.muxer with io := { s.muxer.io with toRxSide := rx } } }

end MuxerSystem

/-! ## Removals on their way -/

namespace ProxyUpdate

def removes (u : ProxyUpdate) : Prop := u.removeProxy ≠ .keep
  deriving Decidable

end ProxyUpdate

variable (id : U64)

def DevicePc.Removes (inst : ℕ) : DevicePc → Prop
  | .idle => False
  | .accept _ p | .update p => p.id = id ∧ p.inst = inst ∧ p.update.removes

instance (d : DevicePc) : Decidable (∃ inst, d.Removes id inst) :=
  match d with
  | .idle => isFalse fun ⟨_, h⟩ => h
  | .accept _ p | .update p =>
    decidable_of_iff (p.id = id ∧ p.update.removes)
      ⟨fun h => ⟨p.inst, h.1, rfl, h.2⟩, fun ⟨_, h⟩ => ⟨h.1, h.2.2⟩⟩

def ThreadPc.Removes (inst : ℕ) : ThreadPc → Prop
  | .update id' inst' u => id' = id ∧ inst' = inst ∧ u.removes
  | _ => False

instance (t : ThreadPc) : Decidable (∃ inst, t.Removes id inst) :=
  match t with
  | .update id' inst' u =>
    decidable_of_iff (id' = id ∧ u.removes)
      ⟨fun h => ⟨inst', h.1, rfl, h.2⟩, fun ⟨_, h⟩ => ⟨h.1, h.2.2⟩⟩
  | .idle | .newProxy .. | .request _ => isFalse fun ⟨_, h⟩ => h

namespace MuxerSystem

/-- A removal under the id, meant for the proxy of that number, is on its way. -/
def Outstanding (s : MuxerSystem M) (id : U64) (inst : ℕ) : Prop :=
  s.device.Removes id inst ∨ s.thread.Removes id inst ∨ (id, inst) ∈ s.muxer.channel ∨
    s.released id = some inst

instance (s : MuxerSystem M) (id : U64) : Decidable (∃ inst, s.Outstanding id inst) :=
  decidable_of_iff ((∃ inst, s.device.Removes id inst) ∨ (∃ inst, s.thread.Removes id inst) ∨
      (s.muxer.channel.map Prod.fst).contains id ∨ (s.released id).isSome) <| by
    simp only [Outstanding, exists_or, isSome_iff_exists, contains_iff_mem, List.mem_map,
      Prod.exists, exists_and_right, exists_eq_right]

end MuxerSystem

namespace Muxer

variable (s : Muxer M)

def inst? (id : U64) : Option ℕ := (s.proxyMap id).map Entry.inst

def createdId? (a : HostAnswers) (pkt : VsockPacket) : Option U64 :=
  match pkt.readProxyCreate s.io.mem, a.socket with
  | some req, .ok _ =>
    if req.type = sockStream ∨ req.type = sockDgram then some (proxyId req.peerPort tsiProxyPort)
    else none
  | _, _ => none

instance (pkt : VsockPacket) : Decidable (s.IsCreate pkt) :=
  inferInstanceAs (Decidable (_ ∧ _ ∧ _))

instance (pkt : VsockPacket) : Decidable (s.IsRequest pkt) :=
  inferInstanceAs (Decidable (_ ∧ _ ∧ _))

/-- The id that a packet inserts. A request for a connection does so only if the port has a path
and the id is not in the map. -/
def newId? (a : HostAnswers) (pkt : VsockPacket) : Option U64 :=
  if s.IsCreate pkt then s.createdId? a pkt
  else if s.IsRequest pkt ∧ (s.proxyMap (s.streamId pkt)).isNone ∧
      (s.unixPath? (pkt.dstPort s.io.mem)).isSome then some (s.streamId pkt)
  else none

end Muxer

namespace MuxerSystem

def newId? (s : MuxerSystem M) : MuxerEvent M → Option U64
  | .packet a pkt => s.muxer.newId? a pkt
  | .threadInserts localPort =>
    match s.thread with
    | .newProxy _ peerPort _ => some (proxyId peerPort localPort)
    | _ => none
  | _ => none

/-- An insertion uses an id that is not in the map and has no removal on its way. -/
def InsertsFresh (s : MuxerSystem M) (e : MuxerEvent M) : Prop :=
  ∀ id ∈ s.newId? e, s.muxer.proxyMap id = none ∧ ∀ inst, ¬ s.Outstanding id inst

instance (s : MuxerSystem M) (e : MuxerEvent M) : Decidable (s.InsertsFresh e) :=
  match h : s.newId? e with
  | none => isTrue (by simp [InsertsFresh, h])
  | some id =>
    decidable_of_iff (s.muxer.proxyMap id = none ∧ ¬ ∃ inst, s.Outstanding id inst)
      (by simp [InsertsFresh, h])

end MuxerSystem

/-! ## What the parts of a step do to the map -/

namespace Muxer

variable {s s' : Muxer M} {a : HostAnswers} {pkt : VsockPacket} {id : U64} {k : ℕ}

/-- The same proxies, perhaps changed by calls. -/
structure SameProxies (s s' : Muxer M) : Prop where
  inst : ∀ id, s'.inst? id = s.inst? id
  created : s'.created = s.created
  removed : s'.removed = s.removed

section

omit [GuestMemory M]

theorem SameProxies.refl (s : Muxer M) : SameProxies s s := ⟨fun _ => rfl, rfl, rfl⟩

@[simp] theorem inst?_insert (p : Proxy) (id' : U64) :
    (s.insert id p).inst? id' = if id' = id then some s.created.length else s.inst? id' := by
  unfold inst? insert
  by_cases h : id' = id <;> simp [h]

@[simp] theorem inst?_remove (id' : U64) :
    (s.remove id k).inst? id' = if id' = id then none else s.inst? id' := by
  unfold inst? remove
  by_cases h : id' = id <;> simp [h]

theorem processProxyUpdate_cases {p : Pending} (h : s.processProxyUpdate p = some s') :
    s' = s ∨ p.update.removes ∧
      (s' = { s with channel := s.channel ++ [(p.id, p.inst)] } ∨ s' = s.remove p.id p.inst) := by
  unfold processProxyUpdate removeLocked at h
  split at h
  · exact .inl (Option.some.inj h).symm
  · next hrem =>
    split_ifs at h
    exact .inr ⟨by simp [ProxyUpdate.removes, hrem], .inr (Option.some.inj h).symm⟩
  · next hrem =>
    have hr : p.update.removes := by simp [ProxyUpdate.removes, hrem]
    split_ifs at h
    · exact .inr ⟨hr, .inl (Option.some.inj h).symm⟩
    · exact .inr ⟨hr, .inr (Option.some.inj h).symm⟩

/-- What a packet does: calls, and perhaps one insertion. A removal it leads to is meant for a
proxy that is in the map. -/
structure Dispatched (s : Muxer M) (new? : Option U64) (r : DevicePc × Muxer M) : Prop where
  proxies : ∃ s₁, SameProxies s s₁ ∧ s₁.channel = s.channel ∧
    (r.2 = s₁ ∨ ∃ id p, new? = some id ∧ r.2 = s₁.insert id p)
  removes : ∀ id k, r.1.Removes id k → r.2.inst? id = some k

theorem Dispatched.idle (s : Muxer M) (new? : Option U64) : Dispatched s new? (.idle, s) :=
  ⟨⟨s, .refl s, rfl, .inl rfl⟩, fun _ _ h => h.elim⟩

end

variable {c : ProxyCall} {new? : Option U64}

theorem call_same {r : Option (ℕ × ProxyUpdate)} (h : s.call id c = some (r, s')) :
    SameProxies s s' ∧ s'.channel = s.channel ∧ ∀ u ∈ r, s'.inst? id = some u.1 := by
  unfold call at h
  split at h
  · cases h
    exact ⟨.refl s, rfl, by simp⟩
  · next e he =>
    obtain ⟨⟨update, proxy, io⟩, _, ⟨⟩⟩ := map_eq_some_iff.mp h
    refine ⟨⟨fun id' => ?_, rfl, rfl⟩, rfl, ?_⟩
    · unfold inst?
      by_cases hid : id' = id
      · simp [hid, he]
      · simp [hid]
    · rintro u ⟨⟩
      simp [inst?]

theorem processProxyCreate_dispatched (s : Muxer M) (a : HostAnswers) (pkt : VsockPacket) :
    Dispatched s (s.createdId? a pkt) (s.processProxyCreate a pkt) := by
  have hins : ∀ id p, Dispatched s (some id) (.idle, s.insert id p) := fun id p =>
    ⟨⟨s, .refl s, rfl, .inr ⟨id, p, rfl, rfl⟩⟩, fun _ _ h => h.elim⟩
  unfold processProxyCreate createdId?
  cases pkt.readProxyCreate s.io.mem with
  | none => exact .idle s _
  | some req =>
    cases a.socket with
    | error e => exact .idle s _
    | ok fd =>
      dsimp only
      by_cases hst : req.type = sockStream
      · rw [if_pos hst, if_pos (.inl hst)]
        exact hins _ _
      · rw [if_neg hst]
        by_cases hdg : req.type = sockDgram
        · rw [if_pos hdg, if_pos (.inr hdg)]
          exact hins _ _
        · rw [if_neg hdg]
          exact .idle s _

theorem callOnly_dispatched : ∀ r ∈ s.callOnly id c, Dispatched s new? r := by
  intro r hr
  obtain ⟨⟨u, s₁⟩, hcall, rfl⟩ := map_eq_some_iff.mp hr
  obtain ⟨hs, hch, _⟩ := call_same hcall
  exact ⟨⟨s₁, hs, hch, .inl rfl⟩, fun _ _ h => h.elim⟩

theorem callThenUpdate_dispatched {guard : Guard} :
    ∀ r ∈ s.callThenUpdate guard id c, Dispatched s new? r := by
  intro r hr
  obtain ⟨⟨u, s₁⟩, hcall, rfl⟩ := map_eq_some_iff.mp hr
  obtain ⟨hs, hch, hu⟩ := call_same hcall
  cases u with
  | none => exact ⟨⟨s₁, hs, hch, .inl rfl⟩, fun _ _ h => h.elim⟩
  | some u =>
    refine ⟨⟨s₁, hs, hch, .inl rfl⟩, ?_⟩
    rintro id' k ⟨rfl, rfl, _⟩
    exact hu u rfl

theorem processOpResponse_dispatched : ∀ r ∈ s.processOpResponse pkt, Dispatched s new? r := by
  intro r hr
  obtain ⟨⟨u, s₁⟩, hcall, rfl⟩ := map_eq_some_iff.mp hr
  obtain ⟨hs, hch, hu⟩ := call_same hcall
  cases u with
  | none => exact ⟨⟨s₁, hs, hch, .inl rfl⟩, fun _ _ h => h.elim⟩
  | some u =>
    dsimp only
    split
    all_goals
      refine ⟨⟨s₁, hs, hch, .inl rfl⟩, ?_⟩
      rintro id' k ⟨rfl, rfl, _⟩
      exact hu u rfl

theorem processOpRequest_dispatched (hreq : s.IsRequest pkt) :
    ∀ r ∈ s.processOpRequest a pkt, Dispatched s (s.newId? a pkt) r := by
  refine forall_mem_ite (fun _ => callOnly_dispatched) fun hnone => ?_
  split
  · rintro r ⟨⟩
    exact .idle s _
  · rintro r ⟨⟩
  · next path fd hpath _ =>
    intro r hr
    obtain ⟨⟨update, unix, io⟩, _, rfl⟩ := map_eq_some_iff.mp hr
    have hnew : s.newId? a pkt = some (s.streamId pkt) := by
      unfold newId?
      rw [if_neg fun h => hreq.1 h.1, if_pos ⟨hreq, by simpa using hnone, by simp [hpath]⟩]
    refine ⟨⟨{ s with io }, ⟨fun _ => rfl, rfl, rfl⟩, rfl, .inr ⟨_, _, hnew, rfl⟩⟩, ?_⟩
    rintro id' k ⟨rfl, rfl, _⟩
    exact (inst?_insert ..).trans (if_pos rfl)

theorem sendPkt_dispatched (s : Muxer M) (a : HostAnswers) (pkt : VsockPacket) :
    ∀ r ∈ s.sendPkt a pkt, Dispatched s (s.newId? a pkt) r := by
  refine sendPkt_rule (.idle s _) (fun hc => ?_) (fun _ _ _ _ => callThenUpdate_dispatched)
    (fun _ _ => callOnly_dispatched) processOpRequest_dispatched
    (fun _ => processOpResponse_dispatched) fun io _ => ?_
  · have h := processProxyCreate_dispatched s a pkt
    rwa [show s.newId? a pkt = s.createdId? a pkt from if_pos hc]
  · exact ⟨⟨{ s with io }, ⟨fun _ => rfl, rfl, rfl⟩, rfl, .inl rfl⟩, fun _ _ h => h.elim⟩

end Muxer

/-! ## The invariant -/

/-- Every proxy that was not removed is in the map, and the removals on their way are meant for
what is in the map. -/
structure MapInv (s : MuxerSystem M) : Prop where
  stays : ∀ k id, s.muxer.created[k]? = some id →
    (id, k) ∈ s.muxer.removed ∨ s.muxer.inst? id = some k
  own : ∀ id k, s.Outstanding id k → ∀ j, s.muxer.inst? id = some j → j = k

namespace MapInv

variable {s s' : MuxerSystem M} {id : U64} {k : ℕ} {m : Muxer M}

section

omit [GuestMemory M]

theorem outstanding_of {P : Prop} (hch : s'.muxer.channel = s.muxer.channel)
    (hrel : s'.released = s.released)
    (hpc : s'.device.Removes id k ∨ s'.thread.Removes id k → s.Outstanding id k ∨ P)
    (h : s'.Outstanding id k) : s.Outstanding id k ∨ P := by
  rcases h with hd | ht | hc | hr
  · exact hpc (.inl hd)
  · exact hpc (.inr ht)
  · exact .inl (.inr (.inr (.inl (hch ▸ hc))))
  · exact .inl (.inr (.inr (.inr (hrel ▸ hr))))

theorem same (h : MapInv s) (hs : Muxer.SameProxies s.muxer s'.muxer)
    (ho : ∀ id k, s'.Outstanding id k → s.Outstanding id k ∨ s'.muxer.inst? id = some k) :
    MapInv s' where
  stays k id hk := by
    rw [hs.inst, hs.removed]
    exact h.stays k id (hs.created ▸ hk)
  own id k hok j hj := by
    rcases ho id k hok with hok | hin
    · exact h.own id k hok j (hs.inst id ▸ hj)
    · exact Option.some.inj (hj.symm.trans hin)

theorem insert (h : MapInv s) {p : Proxy} (hs : Muxer.SameProxies s.muxer m)
    (hs' : s'.muxer = m.insert id p) (hnone : s.muxer.proxyMap id = none)
    (hfree : ∀ k, ¬ s.Outstanding id k)
    (ho : ∀ id k, s'.Outstanding id k → s.Outstanding id k ∨ s'.muxer.inst? id = some k) :
    MapInv s' where
  stays k id' hk := by
    rw [hs', inst?_insert]
    replace hk : (s.muxer.created ++ [id])[k]? = some id' := by
      rw [hs'] at hk
      simpa [Muxer.insert, hs.created] using hk
    rw [List.getElem?_append] at hk
    split_ifs at hk with hlt
    · -- an earlier proxy: under the fresh id it has been removed
      have hold := h.stays k id' hk
      rw [show (m.insert id p).removed = s.muxer.removed from hs.removed, hs.inst]
      by_cases hid : id' = id
      · subst hid
        simp only [inst?, hnone, map_none, reduceCtorEq, or_false] at hold
        exact .inl hold
      · rwa [if_neg hid]
    · obtain ⟨hk0, rfl⟩ : k - s.muxer.created.length = 0 ∧ id = id' := by
        simpa [List.getElem?_singleton] using hk
      have : k = s.muxer.created.length := by omega
      simp [this, hs.created]
  own id' k hok j hj := by
    rcases ho id' k hok with hok | hin
    · have hid : id' ≠ id := by
        rintro rfl
        exact hfree k hok
      rw [hs', inst?_insert, if_neg hid, hs.inst] at hj
      exact h.own id' k hok j hj
    · exact Option.some.inj (hj.symm.trans hin)

theorem remove (h : MapInv s) (hs : Muxer.SameProxies s.muxer m) (hs' : s'.muxer = m.remove id k)
    (hout : s.Outstanding id k) (ho : ∀ id k, s'.Outstanding id k → s.Outstanding id k) :
    MapInv s' where
  stays k' id' hk := by
    have hrem : s'.muxer.removed = s.muxer.removed ++ [(id, k)] := by
      rw [hs', ← hs.removed]
      rfl
    have hold := h.stays k' id' (by rw [hs'] at hk; exact hs.created ▸ hk)
    rw [hrem, hs', inst?_remove, hs.inst, mem_append, mem_singleton]
    by_cases hid : id' = id
    · subst hid
      rcases hold with hold | hold
      · exact .inl (.inl hold)
      · exact .inl (.inr (by rw [h.own id' k hout k' hold]))
    · rw [if_neg hid]
      exact hold.imp_left .inl
  own id' k' hok j hj := by
    rw [hs', inst?_remove, hs.inst] at hj
    split_ifs at hj
    exact h.own id' k' (ho id' k' hok) j hj

theorem update (h : MapInv s) {p : Pending} (hs : Muxer.SameProxies s.muxer m)
    (hch : m.channel = s.muxer.channel) (hupd : m.processProxyUpdate p = some s'.muxer)
    (hout : p.update.removes → s.Outstanding p.id p.inst)
    (hpc : ∀ id k, s'.device.Removes id k ∨ s'.thread.Removes id k → s.Outstanding id k)
    (hrel : s'.released = s.released) : MapInv s' := by
  have ho (hch' : s'.muxer.channel = s.muxer.channel) (id k) (hok : s'.Outstanding id k) :
      s.Outstanding id k :=
    (outstanding_of hch' hrel (fun hk => .inl (hpc id k hk)) hok).resolve_right False.elim
  obtain he | ⟨hr, he | he⟩ := processProxyUpdate_cases hupd
  · exact h.same (he ▸ hs) fun id k hok => .inl (ho (he ▸ hch) id k hok)
  · refine h.same ⟨fun id => ?_, ?_, ?_⟩ fun id k hok => .inl ?_
    · rw [he, ← hs.inst]
      rfl
    · rw [he, ← hs.created]
    · rw [he, ← hs.removed]
    · rcases hok with hd | ht | hc | hrl
      · exact hpc id k (.inl hd)
      · exact hpc id k (.inr ht)
      · rw [he, mem_append, mem_singleton, Prod.mk.injEq, hch] at hc
        rcases hc with hc | ⟨rfl, rfl⟩
        · exact .inr (.inr (.inl hc))
        · exact hout hr
      · exact .inr (.inr (.inr (hrel ▸ hrl)))
  · exact h.remove hs he (hout hr) (ho (by rw [he, ← hch]; rfl))

theorem called (h : MapInv s) (hs : Muxer.SameProxies s.muxer s'.muxer)
    (hch : s'.muxer.channel = s.muxer.channel)
    (hpc : ∀ id k, s'.device.Removes id k ∨ s'.thread.Removes id k →
      s.Outstanding id k ∨ s'.muxer.inst? id = some k)
    (hrel : s'.released = s.released) : MapInv s' :=
  h.same hs fun id k => outstanding_of hch hrel (hpc id k)

end

theorem packet (h : MapInv s) {a : HostAnswers} {pkt : VsockPacket} {r : DevicePc × Muxer M}
    (hf : s.InsertsFresh (.packet a pkt)) (hr : s.muxer.sendPkt a pkt = some r) :
    MapInv { s with device := r.1, muxer := r.2 } := by
  obtain ⟨⟨m, hs, hch, hm⟩, hrem⟩ := sendPkt_dispatched s.muxer a pkt r hr
  have hch' : r.2.channel = s.muxer.channel := by
    rcases hm with hm | ⟨id, p, _, hm⟩
    · rw [hm, hch]
    · rw [hm, ← hch]
      rfl
  have ho : ∀ id k, MuxerSystem.Outstanding { s with device := r.1, muxer := r.2 } id k →
      s.Outstanding id k ∨ r.2.inst? id = some k := fun id k => outstanding_of hch' rfl fun hk =>
    hk.elim (fun hd => .inr (hrem id k hd)) fun ht => .inl (.inr (.inl ht))
  rcases hm with hm | ⟨id, p, hnew, hm⟩
  · exact h.same (hm ▸ hs) ho
  · obtain ⟨hnone, hfree⟩ := hf id hnew
    exact h.insert hs hm hnone hfree ho

theorem deviceGoesOn (h : MapInv s) (hstep : s.step .deviceGoesOn = some s') : MapInv s' := by
  simp only [MuxerSystem.step] at hstep
  split at hstep
  · cases hstep
  · next parentId next hd =>
    obtain ⟨⟨u, m⟩, hcall, rfl⟩ := map_eq_some_iff.mp hstep
    obtain ⟨hs, hch, _⟩ := call_same hcall
    refine h.called hs hch (fun id k hk => .inl ?_) rfl
    rcases hk with hk | hk
    · exact .inl (hd ▸ hk)
    · exact .inr (.inl hk)
  · next p hd =>
    obtain ⟨m, hupd, rfl⟩ := map_eq_some_iff.mp hstep
    refine h.update (.refl _) rfl hupd (fun hr => .inl (hd ▸ ⟨rfl, rfl, hr⟩)) ?_ rfl
    rintro id k (hk | hk)
    · exact hk.elim
    · exact .inr (.inl hk)

theorem socketEvent (h : MapInv s) {evset : EventSet} {answers : List RecvAnswer}
    {accepted : Except Errno ℕ}
    (hstep : s.step (.socketEvent id evset answers accepted) = some s') : MapInv s' := by
  simp only [MuxerSystem.step] at hstep
  split at hstep
  · obtain ⟨⟨u, m⟩, hcall, rfl⟩ := map_eq_some_iff.mp hstep
    obtain ⟨hs, hch, hu⟩ := call_same hcall
    refine h.called hs hch (fun id' k hk => ?_) rfl
    rcases hk with hk | hk
    · exact .inl (.inl hk)
    · cases u with
      | none => exact hk.elim
      | some u =>
        obtain ⟨rfl, rfl, _⟩ := hk
        exact .inr (hu u rfl)
  · cases hstep

theorem threadUpdates (h : MapInv s) (hstep : s.step .threadUpdates = some s') : MapInv s' := by
  simp only [MuxerSystem.step] at hstep
  split at hstep
  · next id inst u ht =>
    obtain ⟨m, hupd, rfl⟩ := map_eq_some_iff.mp hstep
    obtain ⟨m₁, hpush, hupd⟩ := bind_eq_some_iff.mp hupd
    obtain ⟨hs, hch⟩ : Muxer.SameProxies s.muxer m₁ ∧ m₁.channel = s.muxer.channel := by
      unfold MuxerSystem.pushCredit at hpush
      split at hpush
      · obtain ⟨io, _, rfl⟩ := map_eq_some_iff.mp hpush
        exact ⟨⟨fun _ => rfl, rfl, rfl⟩, rfl⟩
      · cases hpush
        exact ⟨.refl _, rfl⟩
    refine h.update hs hch hupd (fun hr => .inr (.inl (ht ▸ ⟨rfl, rfl, hr⟩))) ?_ rfl
    rintro id' k (hk | hk)
    · exact .inl hk
    · dsimp only at hk
      split at hk <;> exact hk.elim
  · cases hstep

theorem threadInserts (h : MapInv s) {localPort : U32}
    (hf : s.InsertsFresh (.threadInserts localPort))
    (hstep : s.step (.threadInserts localPort) = some s') : MapInv s' := by
  simp only [MuxerSystem.step] at hstep
  split at hstep
  · next parentId peerPort fd ht =>
    cases hstep
    obtain ⟨hnone, hfree⟩ := hf (proxyId peerPort localPort) (by simp [MuxerSystem.newId?, ht])
    exact h.insert (.refl _) rfl hnone hfree fun id k => outstanding_of rfl rfl fun hk =>
      hk.elim (fun hk => .inl (.inl hk)) False.elim
  · cases hstep

theorem threadAnnounces (h : MapInv s) (hstep : s.step .threadAnnounces = some s') : MapInv s' := by
  simp only [MuxerSystem.step] at hstep
  split at hstep
  · obtain ⟨⟨u, m⟩, hcall, rfl⟩ := map_eq_some_iff.mp hstep
    obtain ⟨hs, hch, _⟩ := call_same hcall
    refine h.called hs hch (fun id k hk => .inl ?_) rfl
    rcases hk with hk | hk
    · exact .inl hk
    · exact hk.elim
  · cases hstep

theorem reaperReceives (h : MapInv s) (hstep : s.step .reaperReceives = some s') : MapInv s' := by
  simp only [MuxerSystem.step] at hstep
  split at hstep
  · next id inst channel hch =>
    cases hstep
    refine h.same ⟨fun _ => rfl, rfl, rfl⟩ fun id' k hk => .inl ?_
    rcases hk with hk | hk | hk | hk
    · exact .inl hk
    · exact .inr (.inl hk)
    · exact .inr (.inr (.inl (hch ▸ mem_cons_of_mem _ hk)))
    · dsimp only at hk
      by_cases hid : id' = id
      · subst hid
        obtain rfl : inst = k := by simpa using hk
        exact .inr (.inr (.inl (hch ▸ mem_cons_self)))
      · rw [Function.update_of_ne hid] at hk
        exact .inr (.inr (.inr hk))
  · cases hstep

theorem reaperExpires (h : MapInv s) (hstep : s.step (.reaperExpires id) = some s') :
    MapInv s' := by
  obtain ⟨inst, hrel, rfl⟩ := map_eq_some_iff.mp hstep
  refine h.remove (.refl _) rfl (.inr (.inr (.inr hrel))) fun id' k hk => ?_
  rcases hk with hk | hk | hk | hk
  · exact .inl hk
  · exact .inr (.inl hk)
  · exact .inr (.inr (.inl hk))
  · dsimp only at hk
    by_cases hid : id' = id
    · simp [hid] at hk
    · rw [Function.update_of_ne hid] at hk
      exact .inr (.inr (.inr hk))

theorem step {e : MuxerEvent M} (h : MapInv s) (hf : s.InsertsFresh e)
    (hstep : s.step e = some s') : MapInv s' := by
  cases e with
  | packet a pkt =>
    simp only [MuxerSystem.step] at hstep
    split at hstep
    · obtain ⟨r, hr, rfl⟩ := map_eq_some_iff.mp hstep
      exact h.packet hf hr
    · cases hstep
  | deviceGoesOn => exact h.deviceGoesOn hstep
  | socketEvent => exact h.socketEvent hstep
  | threadUpdates => exact h.threadUpdates hstep
  | threadInserts => exact h.threadInserts hf hstep
  | threadAnnounces => exact h.threadAnnounces hstep
  | reaperReceives => exact h.reaperReceives hstep
  | reaperExpires => exact h.reaperExpires hstep
  | reaperStops | others =>
    cases hstep
    exact h.same ⟨fun _ => rfl, rfl, rfl⟩ fun id k hk => .inl hk

end MapInv

/-- **Proxies stay.** In every run of the three threads from the activation of the muxer in which
each insertion uses an id that is not in the map and has no removal on its way: every proxy ever
created is in the map under its id, unless its own removal was carried out, and a removal on its
way under an id is meant for the proxy that is in the map there. -/
theorem proxies_stay (cid : U64) (hostPortMap : Option (List (U16 × U16)))
    (unixIpcPortMap : Option (List (U32 × String))) (io : Io M) {s : MuxerSystem M}
    {es : List (MuxerEvent M)}
    (hf : Along MuxerSystem.step MuxerSystem.InsertsFresh
      (.start cid hostPortMap unixIpcPortMap io) es)
    (hr : run MuxerSystem.step (.start cid hostPortMap unixIpcPortMap io) es = some s) :
    (∀ k id, s.muxer.created[k]? = some id →
      (id, k) ∈ s.muxer.removed ∨ ∃ e, s.muxer.proxyMap id = some e ∧ e.inst = k) ∧
    ∀ id k, s.Outstanding id k → ∀ e, s.muxer.proxyMap id = some e → e.inst = k := by
  have h0 : MapInv (MuxerSystem.start cid hostPortMap unixIpcPortMap io) :=
    ⟨fun k id hk => by simp [MuxerSystem.start] at hk, fun id k _ j hj => by
      simp [MuxerSystem.start, inst?] at hj⟩
  have h := along_invariant (P := MapInv) (fun t e t' h hf hs => h.step hf hs) h0 hf hr
  refine ⟨fun k id hk => (h.stays k id hk).imp_right map_eq_some_iff.mp, ?_⟩
  intro id k hok e he
  exact h.own id k hok e.inst (by rw [inst?, he]; rfl)

def requestHdr (port : U32) : List Byte :=
  leBytes 8 3 ++ leBytes 8 vsockHostCid.toNat ++ leBytes 4 1024 ++ leBytes 4 port.toNat ++
    leBytes 4 8 ++ leBytes 2 vsockTypeDgram.toNat

/-- A request for a stream proxy of port 2048 and a request for its release. -/
def mapMemory : FlatMemory :=
  (smallMemory.put 0x1a0 (requestHdr tsiProxyCreate)).put 0x1d0 (requestHdr tsiProxyRelease)
    |>.put 0x100 (leBytes 4 2048 ++ leBytes 4 sockStream.toNat ++
      leBytes 4 2048 ++ leBytes 4 tsiProxyPort.toNat)

def createPacket : VsockPacket := ⟨0x1a0, some 0x100, 6⟩

def releasePacket : VsockPacket := ⟨0x1d0, some 0x108, 8⟩

def socketHost : HostAnswers := { quietHost with socket := .ok 7 }

def mapStart : MuxerSystem FlatMemory :=
  .start 3 none none (.start ⟨smallQueue, mapMemory, .new⟩)

def releaseEvents : List (MuxerEvent FlatMemory) :=
  [.packet socketHost releasePacket, .deviceGoesOn]

def reapEvents : List (MuxerEvent FlatMemory) :=
  [.reaperReceives, .reaperExpires (proxyId 2048 tsiProxyPort)]

def reuseEvents : List (MuxerEvent FlatMemory) :=
  [.packet socketHost createPacket] ++ releaseEvents ++ reapEvents ++
    [.packet socketHost createPacket]

theorem reuse_stays : ∃ s, run MuxerSystem.step mapStart reuseEvents = some s ∧
    (∀ k id, s.muxer.created[k]? = some id →
      (id, k) ∈ s.muxer.removed ∨ ∃ e, s.muxer.proxyMap id = some e ∧ e.inst = k) ∧
    ∀ id k, s.Outstanding id k → ∀ e, s.muxer.proxyMap id = some e → e.inst = k := by
  obtain ⟨s, hs⟩ := isSome_iff_exists.mp
    (show (run MuxerSystem.step mapStart reuseEvents).isSome by decide +kernel)
  have hf : Along MuxerSystem.step MuxerSystem.InsertsFresh mapStart reuseEvents := by
    decide +kernel
  exact ⟨s, hs, proxies_stay _ _ _ _ hf hs⟩

/-- The proxies ever created, the removals carried out and the proxy under an id. -/
def MuxerSystem.mapView (s : MuxerSystem M) : List U64 × List (U64 × ℕ) × Option ℕ :=
  (s.muxer.created, s.muxer.removed, s.muxer.inst? id)

/-- A request for a proxy that is there already: the new proxy replaces the old one. If the old one
had been released, its removal then takes the new one away. -/
theorem proxy_replaced_and_reaped :
    (run MuxerSystem.step mapStart
        ([.packet socketHost createPacket] ++ releaseEvents ++
          [.packet socketHost createPacket])).map
        (MuxerSystem.mapView (proxyId 2048 tsiProxyPort)) =
      some ([proxyId 2048 tsiProxyPort, proxyId 2048 tsiProxyPort], [], some 1) ∧
    (run MuxerSystem.step mapStart
        ([.packet socketHost createPacket] ++ releaseEvents ++
          [.packet socketHost createPacket] ++ reapEvents)).map
        (MuxerSystem.mapView (proxyId 2048 tsiProxyPort)) =
      some ([proxyId 2048 tsiProxyPort, proxyId 2048 tsiProxyPort],
        [(proxyId 2048 tsiProxyPort, 0)], none) := by
  decide +kernel

end Shelter.Vsock
