import Shelter.Fs.Calls
import Shelter.Fs.Session

/-!
# The credentials of the worker thread

`mkdir`, `mknod`, `symlink`, `create` and a write that is to drop privileges are made in the name of
the requester: the thread changes its effective ids, makes the call and changes them back.

1. `KeepsCreds` holds of the programs that do not touch the ids, and `Acts` of the bodies that run
   under changed ones.
2. `Proper` is what a request guarantees, and `withCreds_proper` the scope in which a body acts.
3. `call_proper` goes through the calls, and `credentials_kept` through whole sessions.

The guards of a write end before the write. A requester with the id `-1` cannot be impersonated, as
the kernel takes it for the present id; and a guard only logs that it could not change back.
-/

open Bytes

namespace Shelter.Fs

open Virtio Prog Passthrough List

def SysCall.setsId : SysCall → Bool
  | .setresuid _ | .setresgid _ => true
  | _ => false

theorem SysCall.setsId_of_quiet {c : SysCall} (h : c.quiet = true) : c.setsId = false := by
  cases c <;> first | rfl | cases h

def Performed.Right (p : Performed) : Prop :=
  ∀ ctx ∈ p.requester, p.euid = ctx.uid ∧ p.egid = ctx.gid

def SysCall.isWrite : SysCall → Bool
  | .pwritev .. => true
  | _ => false

/-- A change back to root succeeded; a requester has ids that can be taken on; and the requester of
a write is root. -/
def Performed.CredsOk (p : Performed) : Prop :=
  (p.call = .setresuid 0 ∨ p.call = .setresgid 0 → p.ok = true) ∧
  ∀ ctx ∈ p.requester, (ctx.uid ≠ -1 ∧ ctx.gid ≠ -1) ∧
    (p.call.isWrite = true → ctx.uid = 0 ∧ ctx.gid = 0)
  deriving Decidable

/-! ## Programs that leave the ids alone -/

/-- The ids stay, and no call is made in the name of a requester. -/
structure KeepsCreds (s s' : Served) : Prop where
  euid : s'.thread.euid = s.thread.euid
  egid : s'.thread.egid = s.thread.egid
  log : ∃ new, s'.thread.log = s.thread.log ++ new ∧
    ∀ p ∈ new, p.requester = none ∧ p.call.setsId = false

/-- The ids stay, and calls in the name of `ctx` are made with them. -/
structure Acts (ctx : Context) (s s' : Served) : Prop where
  euid : s'.thread.euid = s.thread.euid
  egid : s'.thread.egid = s.thread.egid
  log : ∃ new, s'.thread.log = s.thread.log ++ new ∧ ∀ p ∈ new, p.call.setsId = false ∧
    ∀ c ∈ p.requester, c = ctx ∧ p.euid = s.thread.euid ∧ p.egid = s.thread.egid

theorem Quiet.keepsCreds {s s' : Served} (h : Quiet s s') : KeepsCreds s s' where
  __ := h
  log := by
    obtain ⟨new, hlog, hnew⟩ := h.log
    exact ⟨new, hlog, fun p hp => ⟨(hnew p hp).1, SysCall.setsId_of_quiet (hnew p hp).2⟩⟩

theorem KeepsCreds.acts {s s' : Served} (h : KeepsCreds s s') (ctx : Context) : Acts ctx s s' where
  __ := h
  log := by
    obtain ⟨new, hlog, hnew⟩ := h.log
    refine ⟨new, hlog, fun p hp => ⟨(hnew p hp).2, fun c hc => ?_⟩⟩
    cases ((hnew p hp).1).symm.trans hc

theorem closed_keepsCreds : Closed KeepsCreds where
  refl s := ⟨rfl, rfl, [], by simp, by simp⟩
  trans h h' := by
    obtain ⟨new, hlog, hnew⟩ := h.log
    obtain ⟨new', hlog', hnew'⟩ := h'.log
    refine ⟨h'.euid.trans h.euid, h'.egid.trans h.egid, new ++ new', ?_, ?_⟩
    · rw [hlog', hlog, append_assoc]
    · intro p hp
      exact (mem_append.mp hp).elim (hnew p) (hnew' p)

theorem closed_acts (ctx : Context) : Closed (Acts ctx) where
  refl s := (closed_keepsCreds.refl s).acts ctx
  trans h h' := by
    obtain ⟨new, hlog, hnew⟩ := h.log
    obtain ⟨new', hlog', hnew'⟩ := h'.log
    refine ⟨h'.euid.trans h.euid, h'.egid.trans h.egid, new ++ new', ?_, ?_⟩
    · rw [hlog', hlog, append_assoc]
    · intro p hp
      refine (mem_append.mp hp).elim (hnew p) fun hp => ?_
      obtain ⟨hid, hctx⟩ := hnew' p hp
      refine ⟨hid, fun c hc => ?_⟩
      rw [← h.euid, ← h.egid]
      exact hctx c hc

def Proper (s s' : Served) : Prop :=
  ∃ new, s'.thread.log = s.thread.log ++ new ∧ ((∀ p ∈ new, p.CredsOk) →
    s.thread.euid = 0 ∧ s.thread.egid = 0 →
      (s'.thread.euid = 0 ∧ s'.thread.egid = 0) ∧ ∀ p ∈ new, p.Right)

theorem KeepsCreds.proper {s s' : Served} (h : KeepsCreds s s') : Proper s s' := by
  obtain ⟨new, hlog, hnew⟩ := h.log
  refine ⟨new, hlog, fun _ hs => ⟨⟨h.euid.trans hs.1, h.egid.trans hs.2⟩, fun p hp ctx hctx => ?_⟩⟩
  cases ((hnew p hp).1).symm.trans hctx

theorem closed_proper : Closed Proper where
  refl s := (closed_keepsCreds.refl s).proper
  trans h h' := by
    obtain ⟨new, hlog, hnew⟩ := h
    obtain ⟨new', hlog', hnew'⟩ := h'
    refine ⟨new ++ new', by rw [hlog', hlog, append_assoc], fun hok hs => ?_⟩
    obtain ⟨hs₁, hright⟩ := hnew (fun p hp => hok p (mem_append_left _ hp)) hs
    obtain ⟨hs₂, hright'⟩ := hnew' (fun p hp => hok p (mem_append_right _ hp)) hs₁
    exact ⟨hs₂, fun p hp => (mem_append.mp hp).elim (hright p) (hright' p)⟩

namespace Passthrough

variable {A : Type}

theorem perform_of_not_setsId (t : Thread) {call : SysCall} (h : call.setsId = false)
    (requester : Option Context) (ok : Bool) : t.perform call requester ok =
    { t with log := t.log ++ [⟨call, t.euid, t.egid, requester, ok⟩] } := by
  cases call <;> first | rfl | cases h

theorem acts_sysFor (ctx : Context) (answer : ℕ → Except Errno A) {call : SysCall}
    (h : call.setsId = false) : Does (Acts ctx) (sysFor (some ctx) answer call) := by
  intro s
  refine ⟨_, _, rfl, ?_⟩
  rw [perform_of_not_setsId s.thread h]
  exact ⟨rfl, rfl, _, rfl, by simpa using h⟩

variable (host : Host)

theorem tame_keepsCreds : Tame host KeepsCreds where
  toClosed := closed_keepsCreds
  quiet h := h.keepsCreds
  mmap _ _ _ _ _ _ s := ⟨_, _, rfl, rfl, rfl, _, rfl, by simp [SysCall.setsId]⟩

theorem keepsCreds_fs (s : Served) (fs : PassthroughFs) : KeepsCreds s { s with fs := fs } :=
  ⟨rfl, rfl, [], by simp, by simp⟩

theorem keepsCreds_acquire (altkey : InodeAltKey) (file : Fd) :
    Does KeepsCreds (acquire altkey file) :=
  does_acquire (fun s _ _ => keepsCreds_fs s _) altkey file

/-! ## Acting in the name of a requester -/

inductive IdKind
  | uid
  | gid

namespace IdKind

def call : IdKind → U32 → SysCall
  | uid => .setresuid
  | gid => .setresgid

def of : IdKind → Thread → U32
  | uid => Thread.euid
  | gid => Thread.egid

def other : IdKind → IdKind
  | uid => gid
  | gid => uid

theorem of_perform (k : IdKind) (t : Thread) (val : U32) (ok : Bool) :
    k.of (t.perform (k.call val) none ok) =
        (if ok = true ∧ val ≠ -1 then val else k.of t) ∧
      k.other.of (t.perform (k.call val) none ok) = k.other.of t := by
  cases k <;> cases ok <;> simp [call, of, other, Thread.perform]

end IdKind

theorem scopedNew_run (k : IdKind) (val : U32) (s : Served) :
    ∃ r s' new, scopedNew host k.call val s = some (r, s') ∧
      s'.thread.log = s.thread.log ++ new ∧ (∀ p ∈ new, p.requester = none) ∧
      k.other.of s'.thread = k.other.of s.thread ∧
      ((∃ guard, r = .ok guard ∧ (k.of s.thread = 0 → (val ≠ -1 → k.of s'.thread = val) ∧
          (guard = false → k.of s'.thread = 0))) ∨
        ∃ e, r = .error e ∧ k.of s'.thread = k.of s.thread) := by
  unfold scopedNew
  split_ifs with hval
  · exact ⟨_, s, [], rfl, by simp, by simp, rfl, .inl ⟨false, rfl, fun hs =>
      ⟨fun _ => hs.trans hval.symm, fun _ => hs⟩⟩⟩
  · obtain ⟨hof, hother⟩ := k.of_perform s.thread val (host.unit s.thread.log.length).isOk
    have hsys : sys host.unit (k.call val) s =
        some ((host.unit s.thread.log.length).mapError .os, { s with
          thread := s.thread.perform (k.call val) none
            (host.unit s.thread.log.length).isOk }) := rfl
    have hlog : (s.thread.perform (k.call val) none (host.unit s.thread.log.length).isOk).log =
        s.thread.log ++ [⟨k.call val, s.thread.euid, s.thread.egid, none,
          (host.unit s.thread.log.length).isOk⟩] := rfl
    rcases hans : host.unit s.thread.log.length with e | _ <;>
      simp only [hans] at hof hother hsys hlog
    · exact ⟨_, _, _, bind_error hsys, hlog, by simp, hother, .inr ⟨_, rfl, by
        simpa [Except.isOk, Except.toBool] using hof⟩⟩
    · refine ⟨_, _, _, bind_ok hsys, hlog, by simp, hother,
        .inl ⟨true, rfl, fun _ => ⟨fun hne => ?_,
        nofun⟩⟩⟩
      rwa [if_pos ⟨rfl, hne⟩] at hof

theorem scopedDrop_run (k : IdKind) (guard : Bool) (s : Served) :
    ∃ s' new, scopedDrop host k.call guard s = some (.ok (), s') ∧
      s'.thread.log = s.thread.log ++ new ∧ (∀ p ∈ new, p.requester = none) ∧
      k.other.of s'.thread = k.other.of s.thread ∧
      ((∀ p ∈ new, p.CredsOk) → (guard = false → k.of s.thread = 0) → k.of s'.thread = 0) := by
  cases guard with
  | false => exact ⟨s, [], rfl, by simp, by simp, rfl, fun _ hs => hs rfl⟩
  | true =>
    obtain ⟨hof, hother⟩ := k.of_perform s.thread 0 (host.unit s.thread.log.length).isOk
    refine ⟨_, [⟨k.call 0, s.thread.euid, s.thread.egid, none,
      (host.unit s.thread.log.length).isOk⟩], bind_ok (attempt_run _ _), rfl, by simp, hother,
      fun hok _ => ?_⟩
    have hok := (hok _ (mem_singleton_self _)).1 (by cases k <;> simp [IdKind.call])
    dsimp only at hok
    simpa [hok] using hof

theorem withCreds_proper (ctx : Context) {body : Step A}
    (hbody : Does (Acts ctx) body) : Does Proper (withCreds host ctx.uid ctx.gid body) := by
  intro s
  have none_right {l : List Performed} (h : ∀ p ∈ l, p.requester = none) : ∀ p ∈ l, p.Right := by
    intro p hp ctx hctx
    cases (h p hp).symm.trans hctx
  obtain ⟨r₁, s₁, n₁, h₁, l₁, q₁, o₁, ⟨gidGuard, rfl, hgid⟩ | ⟨e, rfl, hgid⟩⟩ :=
    scopedNew_run host .gid ctx.gid s
  rotate_left
  · -- the gid could not be changed
    exact ⟨_, s₁, bind_error h₁, n₁, l₁, fun _ hs => ⟨⟨o₁.trans hs.1, hgid.trans hs.2⟩,
      none_right q₁⟩⟩
  obtain ⟨r₂, s₂, n₂, h₂, l₂, q₂, o₂, ⟨uidGuard, rfl, huid⟩ | ⟨e, rfl, huid⟩⟩ :=
    scopedNew_run host .uid ctx.uid s₁
  rotate_left
  · -- the uid could not be changed, and the gid is changed back
    obtain ⟨s₃, n₃, h₃, l₃, q₃, o₃, hdrop⟩ := scopedDrop_run host .gid gidGuard s₂
    refine ⟨.error e, s₃, ?_, n₁ ++ (n₂ ++ n₃), by rw [l₃, l₂, l₁]; simp,
      fun hok hs => ⟨⟨?_, ?_⟩, ?_⟩⟩
    · exact (bind_ok h₁).trans ((bind_ok (attempt_ok h₂)).trans (bind_ok h₃))
    · exact o₃.trans (huid.trans (o₁.trans hs.1))
    · exact hdrop (fun p hp => hok p (by simp [hp])) fun hg => o₂.trans ((hgid hs.2).2 hg)
    · refine none_right fun p hp => ?_
      simp only [mem_append] at hp
      exact hp.elim (q₁ p) fun hp => hp.elim (q₂ p) (q₃ p)
  -- both ids are taken on; the body runs, and the guards are dropped
  obtain ⟨r₃, s₃, h₃, hacts⟩ := hbody s₂
  obtain ⟨n₃, l₃, q₃⟩ := hacts.log
  obtain ⟨s₄, n₄, h₄, l₄, q₄, o₄, hdrop⟩ := scopedDrop_run host .gid gidGuard s₃
  obtain ⟨s₅, n₅, h₅, l₅, q₅, o₅, hdrop'⟩ := scopedDrop_run host .uid uidGuard s₄
  refine ⟨r₃, s₅, ?_, n₁ ++ (n₂ ++ (n₃ ++ (n₄ ++ n₅))), by rw [l₅, l₄, l₃, l₂, l₁]; simp,
    fun hok hs => ⟨⟨?_, ?_⟩, fun p hp => ?_⟩⟩
  · refine (bind_ok h₁).trans ((bind_ok (attempt_ok h₂)).trans ((bind_ok (attempt_ok h₃)).trans
      ((bind_ok h₄).trans ((bind_ok h₅).trans ?_))))
    cases r₃ <;> rfl
  · exact hdrop' (fun p hp => hok p (by simp [hp])) fun hg =>
      o₄.trans (hacts.euid.trans ((huid (o₁.trans hs.1)).2 hg))
  · exact o₅.trans (hdrop (fun p hp => hok p (by simp [hp])) fun hg =>
      hacts.egid.trans (o₂.trans ((hgid hs.2).2 hg)))
  · have hcreds := hok p hp
    simp only [mem_append] at hp
    rcases hp with hp | hp | hp | hp | hp
    · exact none_right q₁ p hp
    · exact none_right q₂ p hp
    · intro c hc
      obtain ⟨rfl, heuid, hegid⟩ := (q₃ p hp).2 c hc
      obtain ⟨⟨huid', hgid'⟩, -⟩ := hcreds.2 c hc
      exact ⟨heuid.trans ((huid (o₁.trans hs.1)).1 huid'),
        hegid.trans (o₂.trans ((hgid hs.2).1 hgid'))⟩
    · exact none_right q₄ p hp
    · exact none_right q₅ p hp

/-! ## The calls -/

/-- The calls that create something, under the ids of the requester. A security context panics. -/
theorem proper_create (ctx : Context) {secctx : Option SecContext} {parent : U64}
    {answer : ℕ → Except Errno A} {call : InodeData → SysCall}
    (hcall : ∀ data, (call data).setsId = false) {B : Type} {rest : A → Step B}
    (hrest : ∀ a, Does KeepsCreds (rest a)) :
    Leaves Proper (if secctx.isSome then Prog.panic else withCreds host ctx.uid ctx.gid do
      let data ← getInode parent
      let a ← sysFor (some ctx) answer (call data)
      rest a) := by
  have hc := closed_acts ctx
  refine leaves_ite (fun _ => leaves_panic) fun _ => (withCreds_proper host ctx ?_).leaves
  refine does_bind hc (does_getInode hc parent) fun data => ?_
  refine does_bind hc (acts_sysFor ctx answer (hcall data)) fun a => ?_
  exact (hrest a).mono fun _ _ h => h.acts ctx

theorem proper_write (ctx : Context) (inode handle : U64) (r : Reader) (size : U32)
    (offset : U64) : Does Proper (write host ctx inode handle r size offset true) := by
  refine does_bind closed_proper (does_when closed_proper fun _ => ?_) fun _ => ?_
  · exact withCreds_proper host ctx (does_pure (closed_acts ctx) ())
  refine does_bind closed_proper (does_getHandle closed_proper inode handle) fun data s => ?_
  refine ⟨_, _, rfl, ?_⟩
  simp only [recordTransfer, if_true]
  split
  · exact closed_proper.refl s
  · refine ⟨[_], rfl, fun hok hs => ⟨hs, fun p hp ctx' hctx => ?_⟩⟩
    obtain rfl := mem_singleton.mp hp
    obtain ⟨huid, hgid⟩ := ((hok _ (mem_singleton_self _)).2 ctx' hctx).2 rfl
    exact ⟨hs.1.trans huid.symm, hs.2.trans hgid.symm⟩

theorem tame_proper : Tame host Proper where
  toClosed := closed_proper
  quiet h := h.keepsCreds.proper
  mmap addr len prot flags fd offset :=
    ((tame_keepsCreds host).mmap addr len prot flags fd offset).mono fun _ _ h => h.proper

theorem proper_call (c : FsCall A) : Leaves Proper (call host c) := by
  have hR := tame_keepsCreds host
  have hlookup := does_doLookup hR keepsCreds_acquire
  refine leaves_call_of_tame (tame_proper host) c (fun s => (keepsCreds_fs s _).proper)
    (fun _ s _ _ => (keepsCreds_fs s _).proper) (fun _ s _ _ => (keepsCreds_fs s _).proper)
    fun himp => ?_
  cases c with
  | mkdir ctx parent name | mknod ctx parent name | symlink ctx _ parent name =>
    exact proper_create host ctx (fun _ => rfl) fun _ => hlookup parent name
  | create ctx parent name =>
    refine proper_create host ctx (fun _ => rfl) fun file => ?_
    refine does_bind hR.toClosed (hlookup parent name) fun entry => ?_
    exact does_bind hR.toClosed (does_insertHandle (fun s _ _ => keepsCreds_fs s _) _ file)
      fun _ => does_bind hR.toClosed (does_get hR.toClosed) fun _ => does_pure hR.toClosed _
  | write ctx inode handle r size offset _ _ killPriv =>
    obtain rfl : killPriv = true := himp
    exact (proper_write host ctx inode handle r size offset).leaves
  | _ => cases himp

theorem follows_proper (M : Type) [GuestMemory M] (host : Host) :
    Server.Follows (fileSystem M host) Proper :=
  follows_of_tame (tame_proper host)
    (fun altkey file => (keepsCreds_acquire altkey file).mono fun _ _ h => h.proper)
    (proper_call host)

end Passthrough

/-! ## Sessions -/

namespace Server

variable {M : Type} [GuestMemory M]

/-- In every session, as long as the thread can change back to root: every call in the name of a
requester is made with the requester's ids, unless it is a write or an id is `-1`; and after every
message the thread is root. -/
theorem credentials_kept (host : Host) (shm : Option VirtioShmRegion) (cfg : Config)
    (procSelfFd : Fd) (m : M) {msgs : List (Message M)} {s : ServerState M Served}
    (hrun : session (fileSystem M host) shm (start cfg procSelfFd m) msgs = some s)
    (hok : ∀ p ∈ s.fs.thread.log, p.CredsOk) :
    (s.fs.thread.euid = 0 ∧ s.fs.thread.egid = 0) ∧ ∀ p ∈ s.fs.thread.log, p.Right := by
  obtain ⟨new, hlog, hnew⟩ := leaves_session (follows_proper M host) hrun
  obtain rfl : s.fs.thread.log = new := hlog
  exact hnew hok ⟨rfl, rfl⟩

/-- `MKDIR` of `d` in the root directory. -/
def mkdirBytes (uid gid : U32) : List Byte :=
  requestBytes 9 1 uid gid (le (0o755 : U32) ++ le (0 : U32) ++ [100, 0])

/-- A directory is made for a user. -/
theorem credentials_kept_mkdir :
    ∃ s : ServerState FlatMemory Served, session (fileSystem FlatMemory calmHost) none
        (start smallConfig 3 (smallGuest [] [])) [smallMessage initBytes [80],
          smallMessage (mkdirBytes 1000 100) [144]] = some s ∧
      (⟨.mkdirat 10 [100] 0o755, 1000, 100, some ⟨1000, 100, 1⟩, true⟩ : Performed) ∈
        s.fs.thread.log ∧
      (s.fs.thread.euid = 0 ∧ s.fs.thread.egid = 0) ∧ ∀ p ∈ s.fs.thread.log, p.Right := by
  obtain ⟨s, hrun, hmem, hok⟩ : ∃ s : ServerState FlatMemory Served,
      session (fileSystem FlatMemory calmHost) none
        (start smallConfig 3 (smallGuest [] [])) [smallMessage initBytes [80],
          smallMessage (mkdirBytes 1000 100) [144]] = some s ∧
      (⟨.mkdirat 10 [100] 0o755, 1000, 100, some ⟨1000, 100, 1⟩, true⟩ : Performed) ∈
        s.fs.thread.log ∧ ∀ p ∈ s.fs.thread.log, p.CredsOk := by decide +kernel
  exact ⟨s, hrun, hmem, credentials_kept calmHost none smallConfig 3 _ hrun hok⟩

def openBytes : List Byte := requestBytes 14 1 0 0 (le (0 : U32) ++ le (0 : U32))

/-- `WRITE` of four bytes to the root directory, under the handle 1, that is to drop privileges. -/
def killPrivBytes (uid gid : U32) : List Byte :=
  requestBytes 16 1 uid gid (le (1 : U64) ++ le (0 : U64) ++ le (4 : U32) ++ le writeKillPriv ++
    le (0 : U64) ++ le (0 : U32) ++ le (0 : U32) ++ [1, 2, 3, 4])

/-- A host that does not let the thread change back after the first `MKDIR`. -/
def holdingHost : Host :=
  { calmHost with unit := fun n => if n = 8 ∨ n = 9 then .error 1 else .ok () }

/-- A write for a user is made by root; and a thread that cannot change back goes on as the user. -/
theorem credentials_lost :
    (∃ s : ServerState FlatMemory Served, session (fileSystem FlatMemory calmHost) none
        (start smallConfig 3 (smallGuest [] [])) [smallMessage initBytes [80],
          smallMessage openBytes [32], smallMessage (killPrivBytes 1000 100) [24]] = some s ∧
      ⟨.pwritev 13 [⟨0x150, 4⟩] 0, 0, 0, some ⟨1000, 100, 1⟩, true⟩ ∈ s.fs.thread.log) ∧
    ∃ s : ServerState FlatMemory Served,
      session (fileSystem FlatMemory holdingHost) none
        (start smallConfig 3 (smallGuest [] [])) [smallMessage initBytes [80],
          smallMessage (mkdirBytes 1000 100) [144]] = some s ∧
      s.fs.thread.euid = 1000 ∧ s.fs.thread.egid = 100 := by
  decide +kernel

end Server

end Shelter.Fs
