import Shelter.Fs.Dispatch
import Shelter.Fs.Passthrough

/-!
# What the calls of the file system change

Most calls find a descriptor and pass the request on: they change neither table, nor the credentials
of the thread, nor a mapping. `Quiet` says so, and `plain_quiet` proves it of all of them at once;
what is left for every property of the tables are the calls that are there to change them.
-/

namespace Shelter.Fs

open Virtio Prog

/-- A system call that changes neither the credentials of the thread nor a mapping. -/
def SysCall.quiet : SysCall → Bool
  | .mmap .. | .setresuid _ | .setresgid _ => false
  | _ => true

/-- The file system is as it was, and the calls made are quiet ones of no requester. -/
structure Quiet (s s' : Served) : Prop where
  fs : s'.fs = s.fs
  euid : s'.thread.euid = s.thread.euid
  egid : s'.thread.egid = s.thread.egid
  log : ∃ new, s'.thread.log = s.thread.log ++ new ∧
    ∀ p ∈ new, p.requester = none ∧ p.call.quiet = true

theorem closed_quiet : Closed Quiet where
  refl s := ⟨rfl, rfl, rfl, [], by simp, by simp⟩
  trans h h' := by
    obtain ⟨new, hlog, hnew⟩ := h.log
    obtain ⟨new', hlog', hnew'⟩ := h'.log
    refine ⟨h'.fs.trans h.fs, h'.euid.trans h.euid, h'.egid.trans h.egid, new ++ new', ?_, ?_⟩
    · rw [hlog', hlog, List.append_assoc]
    · intro p hp
      exact (List.mem_append.mp hp).elim (hnew p) (hnew' p)

namespace Thread

theorem perform_quiet (t : Thread) {call : SysCall} (h : call.quiet = true)
    (requester : Option Context) (ok : Bool) : t.perform call requester ok =
    { t with log := t.log ++ [⟨call, t.euid, t.egid, requester, ok⟩] } := by
  cases call <;> first | rfl | cases h

end Thread

namespace Passthrough

variable {A : Type} {R : Served → Served → Prop}

theorem does_getInode (hR : Closed R) (inode : U64) : Does R (getInode inode) :=
  does_bind hR (does_get hR) fun _ => does_ofOption hR _ _

theorem does_getHandle (hR : Closed R) (inode handle : U64) : Does R (getHandle inode handle) :=
  does_bind hR (does_get hR) fun _ => does_ofOption hR _ _

def openFileOf (s : Served) (inode handle : U64) : Option HandleData :=
  (s.fs.handles handle).filter fun hd => hd.inode = inode

theorem getHandle_run (inode handle : U64) (s : Served) :
    getHandle inode handle s = match openFileOf s inode handle with
      | some data => some (.ok data, s)
      | none => some (.error (.os .ebadf), s) := by
  unfold getHandle
  rw [bind_ok (get_run s)]
  unfold openFileOf ofOption
  cases (s.fs.handles handle).filter fun hd => hd.inode = inode <;> rfl

variable {call : SysCall}

theorem quiet_perform (s : Served) (h : call.quiet = true) (ok : Bool) :
    Quiet s { s with thread := s.thread.perform call none ok } := by
  rw [s.thread.perform_quiet h]
  exact ⟨rfl, rfl, rfl, _, rfl, by simpa using h⟩

theorem quiet_sys (answer : ℕ → Except Errno A) (h : call.quiet = true) :
    Does Quiet (sys answer call) :=
  fun s => ⟨_, _, rfl, quiet_perform s h _⟩

section Plain

variable (host : Host)

theorem quiet_stat (file : Fd) : Does Quiet (stat host file) := quiet_sys _ rfl

variable (inode : U64)

theorem quiet_openInode (flags : U32) : Does Quiet (openInode host inode flags) :=
  does_bind closed_quiet (does_getInode closed_quiet inode) fun _ =>
    does_bind closed_quiet (does_get closed_quiet) fun _ => quiet_sys _ rfl

theorem quiet_doGetattr : Does Quiet (doGetattr host inode) :=
  does_bind closed_quiet (does_getInode closed_quiet inode) fun _ =>
    does_bind closed_quiet (quiet_stat host _) fun _ =>
      does_bind closed_quiet (does_get closed_quiet) fun _ => does_pure closed_quiet _

theorem quiet_doUnlink (parent : U64) (name : CStr) (flags : U32) :
    Does Quiet (doUnlink host parent name flags) :=
  does_bind closed_quiet (does_getInode closed_quiet parent) fun _ => quiet_sys _ rfl

theorem quiet_setattr (attr : Stat) (handle : Option U64) (valid : U32) :
    Does Quiet (setattr host inode attr handle valid) := by
  refine does_bind closed_quiet (does_getInode closed_quiet inode) fun data => ?_
  refine does_bind closed_quiet (does_get closed_quiet) fun s => ?_
  refine does_bind closed_quiet ?_ fun target => ?_
  · cases handle with
    | none => exact does_pure closed_quiet _
    | some handle =>
      exact does_bind closed_quiet (does_getHandle closed_quiet inode handle) fun _ =>
        does_pure closed_quiet _
  -- whatever it is made on, each change is one quiet call
  refine does_bind closed_quiet (does_when closed_quiet fun _ => ?_) fun _ => ?_
  · cases target <;> exact quiet_sys _ rfl
  refine does_bind closed_quiet (does_when closed_quiet fun _ => quiet_sys _ rfl) fun _ => ?_
  refine does_bind closed_quiet (does_when closed_quiet fun _ => ?_) fun _ => ?_
  · refine does_bind closed_quiet ?_ fun _ => quiet_sys _ rfl
    cases target with
    | handle fd => exact does_pure closed_quiet fd
    | procPath path => exact quiet_openInode host inode _
  refine does_bind closed_quiet (does_when closed_quiet fun _ => ?_) fun _ => ?_
  · cases target <;> exact quiet_sys _ rfl
  · exact quiet_doGetattr host inode

theorem quiet_access (ctx : Context) (inode : U64) (mask : U32) :
    Does Quiet (access host ctx inode mask) := by
  refine does_bind closed_quiet (does_getInode closed_quiet inode) fun _ => ?_
  refine does_bind closed_quiet (quiet_stat host _) fun st => ?_
  refine does_ite (fun _ => does_fail closed_quiet _) fun _ => ?_
  refine does_ite (fun _ => does_fail closed_quiet _) fun _ => ?_
  exact does_ite (fun _ => does_fail closed_quiet _) fun _ => does_pure closed_quiet _

theorem quiet_xattr (flags : U32) {x : Fd → Step A}
    (hx : ∀ file, Does Quiet (x file)) :
    Does Quiet (do
      let s ← get
      if s.fs.cfg.xattr = false then fail (.os .enosys)
      else do
        let file ← openInode host inode flags
        x file) := by
  refine does_bind closed_quiet (does_get closed_quiet) fun s => ?_
  refine does_ite (fun _ => does_fail closed_quiet _) fun _ => ?_
  exact does_bind closed_quiet (quiet_openInode host inode flags) hx

theorem quiet_getxattr (name : CStr) (size : U32) : Does Quiet (getxattr host inode name size) := by
  refine does_bind closed_quiet (does_get closed_quiet) fun s => ?_
  refine does_ite (fun _ => does_fail closed_quiet _) fun _ => ?_
  refine does_ite (fun _ => does_fail closed_quiet _) fun _ => ?_
  exact does_bind closed_quiet (quiet_openInode host inode _) fun _ => quiet_sys _ rfl

theorem quiet_onHandle (inode handle : U64) {x : HandleData → Step A}
    (hx : ∀ data, Does Quiet (x data)) :
    Does Quiet (do
      let data ← getHandle inode handle
      x data) :=
  does_bind closed_quiet (does_getHandle closed_quiet inode handle) hx

theorem quiet_onInode {x : InodeData → Step A}
    (hx : ∀ data, Does Quiet (x data)) :
    Does Quiet (do
      let data ← getInode inode
      x data) :=
  does_bind closed_quiet (does_getInode closed_quiet inode) hx

theorem quiet_copyfilerange (inodeIn : U64) {req : CopyfilerangeIn}
    (h : req.flags.toNat < 2 ^ 32) : Does Quiet (copyfilerange host inodeIn req) := by
  refine quiet_onHandle inodeIn req.fhIn fun dataIn => ?_
  refine quiet_onHandle req.nodeidOut req.fhOut fun dataOut => ?_
  exact does_ite (fun hge => absurd hge (by omega)) fun _ => quiet_sys _ rfl

theorem quiet_recordTransfer (bufs : List VolatileSlice) (h : call.quiet = true) (ok : Bool)
    (s : Served) : Quiet s (recordTransfer bufs none call ok s) := by
  unfold recordTransfer
  split
  · exact closed_quiet.refl s
  · exact quiet_perform s h ok

theorem quiet_write (ctx : Context) (inode handle : U64) (r : Reader) (size : U32)
    (offset : U64) : Does Quiet (write host ctx inode handle r size offset false) := by
  refine does_bind closed_quiet (does_when closed_quiet (by simp)) fun _ => ?_
  refine quiet_onHandle inode handle fun data => fun s => ?_
  exact ⟨_, _, rfl, quiet_recordTransfer _ rfl _ s⟩

end Plain

end Passthrough

/-- The calls that only pass a request on. A `copyfilerange` with flags beyond 32 bits panics, and a
write that is to drop privileges changes the credentials. -/
def FsCall.plain {A : Type} : FsCall A → Bool
  | .init _ | .destroy | .lookup .. | .forget .. | .batchForget .. | .symlink .. | .mknod ..
  | .mkdir .. | .link .. | .open .. | .create .. | .release .. | .opendir .. | .releasedir ..
  | .setupmapping .. | .removemapping .. => false
  | .write _ _ _ _ _ _ _ _ killPriv _ => !killPriv
  | .copyfilerange _ _ req => req.flags.toNat < 2 ^ 32
  | .getattr .. | .setattr .. | .readlink .. | .unlink .. | .rmdir .. | .rename .. | .statfs ..
  | .fsync .. | .setxattr .. | .getxattr .. | .listxattr .. | .removexattr .. | .flush ..
  | .fsyncdir .. | .getlk | .setlk | .setlkw | .access .. | .bmap | .ioctl .. | .poll
  | .notifyReply | .fallocate .. | .lseek .. => true

open Passthrough in
theorem plain_quiet (host : Host) {A : Type} {c : FsCall A} (h : c.plain = true) :
    Does Quiet (call host c) := by
  cases c with
  | getattr _ inode _ => exact quiet_doGetattr host inode
  | setattr _ inode attr handle valid => exact quiet_setattr host inode attr handle valid
  | readlink _ inode =>
    exact quiet_onInode inode fun _ =>
      does_bind closed_quiet (quiet_sys _ rfl) fun _ => does_pure closed_quiet _
  | unlink _ parent name | rmdir _ parent name => exact quiet_doUnlink host parent name _
  | rename _ olddir oldname newdir newname flags =>
    exact quiet_onInode olddir fun _ => quiet_onInode newdir fun _ => quiet_sys _ rfl
  | write ctx inode handle r size offset _ _ killPriv _ =>
    obtain rfl : killPriv = false := by simpa [FsCall.plain] using h
    exact quiet_write host ctx inode handle r size offset
  | statfs _ inode => exact quiet_onInode inode fun _ => quiet_sys _ rfl
  | fsync _ inode datasync handle | fsyncdir _ inode datasync handle =>
    exact quiet_onHandle inode handle fun _ => quiet_sys _ (by cases datasync <;> rfl)
  | setxattr _ inode | listxattr _ inode | removexattr _ inode =>
    exact quiet_xattr host inode _ fun _ => quiet_sys _ rfl
  | getxattr _ inode name size => exact quiet_getxattr host inode name size
  | flush _ inode handle _ =>
    exact quiet_onHandle inode handle fun _ =>
      does_bind closed_quiet (quiet_sys _ rfl) fun _ => quiet_sys _ rfl
  | access ctx inode mask => exact quiet_access host ctx inode mask
  | fallocate _ inode handle mode offset length =>
    exact quiet_onHandle inode handle fun _ => quiet_sys _ rfl
  | lseek _ inode handle offset whence =>
    exact quiet_onHandle inode handle fun _ =>
      does_bind closed_quiet (quiet_sys _ rfl) fun _ => does_pure closed_quiet _
  | copyfilerange _ inodeIn req =>
    exact quiet_copyfilerange host inodeIn (by simpa [FsCall.plain] using h)
  | getlk | setlk | setlkw | bmap | ioctl | poll | notifyReply => exact does_fail closed_quiet _
  | init | destroy | lookup | forget | batchForget | symlink | mknod | mkdir | link | «open»
  | create | release | opendir | releasedir | setupmapping | removemapping => cases h

/-! ## The other calls -/

/-- A relation that the host calls of the file system are in, those that change credentials apart.
-/
structure Tame (host : Host) (R : Served → Served → Prop) : Prop extends Closed R where
  quiet : ∀ {s s'}, Quiet s s' → R s s'
  mmap : ∀ addr len prot flags fd offset,
    Does R (Passthrough.mmap host addr len prot flags fd offset)

/-- A relation that does not depend on the thread. -/
structure TableRel (R : Served → Served → Prop) : Prop extends Closed R where
  thread : ∀ s t, R s { s with thread := t }

theorem TableRel.of_fs {R : Served → Served → Prop} (hR : TableRel R) {s s' : Served}
    (h : s'.fs = s.fs) : R s s' := by
  have hs := hR.thread s s'.thread
  rwa [← h] at hs

theorem sameFs : TableRel fun s s' => s'.fs = s.fs where
  refl _ := rfl
  trans h h' := h'.trans h
  thread _ _ := rfl

def FsCall.changesInodes {A : Type} : FsCall A → Bool
  | .init _ | .destroy | .lookup .. | .forget .. | .batchForget .. | .symlink .. | .mknod ..
  | .mkdir .. | .link .. | .create .. => true
  | _ => false

def FsCall.changesHandles {A : Type} : FsCall A → Bool
  | .destroy | .open .. | .create .. | .release .. | .opendir .. | .releasedir .. => true
  | _ => false

def FsCall.impersonates {A : Type} : FsCall A → Bool
  | .mkdir .. | .mknod .. | .symlink .. | .create .. => true
  | .write _ _ _ _ _ _ _ _ killPriv _ => killPriv
  | _ => false

namespace Passthrough

variable {A : Type} {host : Host} {R : Served → Served → Prop}

theorem does_of_quiet (hR : Tame host R) {x : Step A} (h : Does Quiet x) : Does R x :=
  h.mono fun _ _ => hR.quiet

theorem does_sys (hR : Tame host R) (answer : ℕ → Except Errno A) {call : SysCall}
    (h : call.quiet = true) : Does R (sys answer call) := does_of_quiet hR (quiet_sys answer h)

theorem does_acquire (hR : ∀ s inodes nextInode, R s { s with fs := { s.fs with
    inodes, nextInode } }) (altkey : InodeAltKey) (file : Fd) : Does R (acquire altkey file) := by
  intro s
  unfold acquire
  cases s.fs.inodes.getAlt altkey with
  | none => exact ⟨_, _, rfl, hR s _ _⟩
  | some data => exact ⟨_, _, rfl, hR s _ s.fs.nextInode⟩

theorem does_insertHandle (hR : ∀ s handles nextHandle, R s { s with fs := { s.fs with
    handles, nextHandle } }) (inode : U64) (file : Fd) : Does R (insertHandle inode file) :=
  fun s => ⟨_, _, rfl, hR s _ _⟩

theorem does_doLookup (hR : Tame host R) (hacquire : ∀ altkey file, Does R (acquire altkey file))
    (parent : U64) (name : CStr) : Does R (doLookup host parent name) := by
  have hc := hR.toClosed
  refine does_bind hc (does_getInode hc parent) fun p => ?_
  refine does_bind hc (does_sys hR _ rfl) fun f => does_bind hc (does_sys hR _ rfl) fun st => ?_
  refine does_bind hc (hacquire _ f) fun inode => ?_
  exact does_bind hc (does_get hc) fun s => does_pure hc _

theorem does_lookup (hR : Tame host R) (hacquire : ∀ altkey file, Does R (acquire altkey file))
    (parent : U64) (name : CStr) : Does R (lookup host parent name) := by
  have hc := hR.toClosed
  refine does_bind hc (does_get hc) fun s => does_ite (fun _ => does_pure hc _) fun _ => ?_
  exact does_doLookup hR hacquire parent name

theorem does_link (hR : Tame host R) (hacquire : ∀ altkey file, Does R (acquire altkey file))
    (inode newparent : U64) (newname : CStr) : Does R (link host inode newparent newname) := by
  have hc := hR.toClosed
  refine does_bind hc (does_getInode hc inode) fun _ => ?_
  refine does_bind hc (does_getInode hc newparent) fun _ => does_bind hc (does_get hc) fun s => ?_
  exact does_bind hc (does_sys hR _ rfl) fun _ => does_doLookup hR hacquire newparent newname

variable {inode : U64}

theorem does_doOpen (hR : Tame host R) (hinsert : ∀ f, Does R (insertHandle inode f))
    (flags : U32) : Does R (doOpen host inode flags) := by
  have hc := hR.toClosed
  refine does_bind hc (does_of_quiet hR (quiet_openInode host inode flags)) fun f => ?_
  refine does_bind hc (hinsert f) fun handle => ?_
  exact does_bind hc (does_get hc) fun s => does_pure hc _

theorem does_openFile (hR : Tame host R) (hinsert : ∀ f, Does R (insertHandle inode f))
    (flags : U32) : Does R (openFile host inode flags) := by
  have hc := hR.toClosed
  refine does_bind hc (does_get hc) fun s => does_ite (fun _ => does_pure hc _) fun _ => ?_
  exact does_doOpen hR hinsert flags

theorem does_setupmapping (hR : Tame host R) (inode : U64) (req : SetupmappingIn)
    (hostShmBase shmSize : U64) : Does R (setupmapping host inode req hostShmBase shmSize) := by
  have hc := hR.toClosed
  refine does_ite (fun _ => does_fail hc _) fun _ => does_bind hc (does_get hc) fun s => ?_
  refine does_ite (fun _ => hR.mmap _ _ _ _ _ _) fun _ => ?_
  refine does_bind hc (does_of_quiet hR (quiet_openInode host inode _)) fun fd => ?_
  exact does_bind hc (hR.mmap _ _ _ _ _ _) fun _ => does_sys hR _ rfl

theorem does_removemapping (hR : Tame host R) (hostShmBase shmSize : U64)
    (reqs : List RemovemappingOne) : Does R (removemapping host hostShmBase shmSize reqs) := by
  have hc := hR.toClosed
  induction reqs with
  | nil => exact does_pure hc _
  | cons req reqs ih =>
    refine does_ite (fun _ => does_fail hc _) fun _ => ?_
    exact does_bind hc (hR.mmap _ _ _ _ _ _) fun _ => ih

theorem does_init (hR : Tame host R)
    (hroot : ∀ (f : Fd) (st : Stat) s, R s { s with fs := { s.fs with
      inodes := (s.fs.inodes.insert rootId ⟨st.ino, st.dev⟩ ⟨rootId, f, 2⟩).2 } })
    (hwriteback : ∀ s, R s { s with fs := { s.fs with writeback := true } }) (capable : U64) :
    Does R (init host capable) := by
  have hc := hR.toClosed
  refine does_bind hc (does_get hc) fun s => does_bind hc (does_sys hR _ rfl) fun f => ?_
  refine does_bind hc (does_sys hR _ rfl) fun st => does_bind hc (does_sys hR _ rfl) fun _ => ?_
  refine does_bind hc (does_modify (hroot f st)) fun _ => does_ite (fun _ => ?_) fun _ =>
    does_pure hc _
  exact does_bind hc (does_modify hwriteback) fun _ => does_pure hc _

def LogExtends (s s' : Served) : Prop := s.thread.log <+: s'.thread.log

theorem tame_logExtends (host : Host) : Tame host LogExtends where
  refl _ := List.prefix_refl _
  trans h h' := h.trans h'
  quiet h := by
    obtain ⟨new, hlog, -⟩ := h.log
    exact ⟨new, hlog.symm⟩
  mmap _ _ _ _ _ _ s := ⟨_, _, rfl, List.prefix_append _ _⟩

/-! ## The tables -/

section Tables

theorem tame_of_table (hR : TableRel R) : Tame host R where
  toClosed := hR.toClosed
  quiet h := hR.of_fs h.fs
  mmap _ _ _ _ _ _ s := ⟨_, _, rfl, hR.thread s _⟩

theorem does_sysFor (hR : TableRel R) (requester : Option Context) (answer : ℕ → Except Errno A)
    (call : SysCall) : Does R (sysFor requester answer call) := fun s => ⟨_, _, rfl, hR.thread s _⟩

theorem does_scopedNew (hR : TableRel R) (call : U32 → SysCall) (val : U32) :
    Does R (scopedNew host call val) :=
  does_ite (fun _ => does_pure hR.toClosed _) fun _ =>
    does_bind hR.toClosed (does_sysFor hR none _ _) fun _ => does_pure hR.toClosed _

theorem does_scopedDrop (hR : TableRel R) (call : U32 → SysCall) (guard : Bool) :
    Does R (scopedDrop host call guard) :=
  does_ite (fun _ => does_bind hR.toClosed (does_attempt (does_sysFor hR none _ _)) fun _ =>
    does_pure hR.toClosed _) fun _ => does_pure hR.toClosed _

variable {body : Step A}

theorem does_withCreds (hR : TableRel R) (uid gid : U32) (hbody : Does R body) :
    Does R (withCreds host uid gid body) := by
  have hc := hR.toClosed
  refine does_bind hc (does_scopedNew hR _ _) fun gidGuard => ?_
  refine does_bind hc (does_attempt (does_scopedNew hR _ _)) fun r => ?_
  cases r with
  | error e => exact does_bind hc (does_scopedDrop hR _ _) fun _ => does_fail hc e
  | ok uidGuard =>
    refine does_bind hc (does_attempt hbody) fun r => ?_
    refine does_bind hc (does_scopedDrop hR _ _) fun _ => ?_
    exact does_bind hc (does_scopedDrop hR _ _) fun _ => does_ofExcept hc r

theorem scopedDrop_ok (host : Host) (call : U32 → SysCall) (guard : Bool) (s : Served) :
    ∃ s', scopedDrop host call guard s = some (.ok (), s') ∧ s'.fs = s.fs := by
  cases guard with
  | false => exact ⟨s, rfl, rfl⟩
  | true => exact ⟨_, bind_ok (attempt_run _ _), rfl⟩

theorem withCreds_cases {uid gid : U32} {s s' : Served} {r : Except IoErr A}
    (h : withCreds host uid gid body s = some (r, s')) :
    (∃ e, r = .error e ∧ s'.fs = s.fs) ∨
      ∃ s₁ s₂, s₁.fs = s.fs ∧ body s₁ = some (r, s₂) ∧ s'.fs = s₂.fs := by
  have hnew (call : U32 → SysCall) (val : U32) :
      Does (fun s s' => s'.fs = s.fs) (scopedNew host call val) := does_scopedNew sameFs call val
  obtain ⟨e, h₁, rfl⟩ | ⟨gidGuard, s₁, h₁, h⟩ := bind_cases h
  · exact .inl ⟨e, rfl, (hnew _ _).run h₁⟩
  have hs₁ := (hnew _ _).run h₁
  obtain ⟨e, h₂, rfl⟩ | ⟨res, s₂, h₂, h⟩ := bind_cases h
  · exact .inl ⟨e, rfl, ((does_attempt (hnew _ _)).run h₂).trans hs₁⟩
  have hs₂ := ((does_attempt (hnew _ _)).run h₂).trans hs₁
  obtain e | uidGuard := res
  · obtain ⟨s₃, h₃, hs₃⟩ := scopedDrop_ok host .setresgid gidGuard s₂
    dsimp only at h
    cases (bind_ok h₃).symm.trans h
    exact .inl ⟨e, rfl, hs₃.trans hs₂⟩
  · dsimp only at h
    obtain ⟨e, h₃, -⟩ | ⟨res, s₃, h₃, h⟩ := bind_cases h <;>
      obtain ⟨⟨res', s₄⟩, hbody, hout⟩ := Option.map_eq_some_iff.mp h₃ <;> cases hout
    obtain ⟨s₅, h₅, hs₅⟩ := scopedDrop_ok host .setresgid gidGuard s₄
    obtain ⟨s₆, h₆, hs₆⟩ := scopedDrop_ok host .setresuid uidGuard s₅
    rw [bind_ok h₅, bind_ok h₆] at h
    cases res' <;> cases h <;> exact .inr ⟨s₂, s₄, hs₂, hbody, hs₆.trans hs₅⟩

theorem does_write (hR : TableRel R) (ctx : Context) (inode handle : U64) (r : Reader)
    (size : U32) (offset : U64) (killPriv : Bool) :
    Does R (write host ctx inode handle r size offset killPriv) := by
  have hc := hR.toClosed
  refine does_bind hc (does_when hc fun _ => does_withCreds hR _ _ (does_pure hc ())) fun _ => ?_
  refine does_bind hc (does_getHandle hc inode handle) fun data s => ⟨_, _, rfl, hR.of_fs ?_⟩
  unfold recordTransfer
  split <;> rfl

/-- The calls that create something, and look it up. A security context panics. -/
theorem leaves_create (hR : TableRel R) (ctx : Context) {secctx : Option SecContext}
    {parent : U64} {answer : ℕ → Except Errno A} {call : InodeData → SysCall} {B : Type}
    {rest : A → Step B} (hrest : ∀ a, Does R (rest a)) :
    Leaves R (if secctx.isSome then Prog.panic else withCreds host ctx.uid ctx.gid do
      let data ← getInode parent
      let a ← sysFor (some ctx) answer (call data)
      rest a) := by
  have hc := hR.toClosed
  refine leaves_ite (fun _ => leaves_panic) fun _ => (does_withCreds hR _ _ ?_).leaves
  exact does_bind hc (does_getInode hc parent) fun _ =>
    does_bind hc (does_sysFor hR _ _ _) hrest

/-- A relation that holds around the changes of the tables that a call may make, and around the
calls with the ids of the requester, holds around every call. -/
theorem leaves_call_of_tame (ht : Tame host R) (c : FsCall A)
    (hwriteback : ∀ s, R s { s with fs := { s.fs with writeback := true } })
    (hinodes : c.changesInodes = true → ∀ s inodes nextInode,
      R s { s with fs := { s.fs with inodes, nextInode } })
    (hhandles : c.changesHandles = true → ∀ s handles nextHandle,
      R s { s with fs := { s.fs with handles, nextHandle } })
    (hcreds : c.impersonates = true → Leaves R (call host c)) : Leaves R (call host c) := by
  have hc := ht.toClosed
  by_cases hplain : c.plain = true
  · exact (does_of_quiet ht (plain_quiet host hplain)).leaves
  cases c with
  | init capable =>
    exact (does_init ht (fun _ _ s => hinodes rfl s _ s.fs.nextInode) hwriteback capable).leaves
  | destroy =>
    exact (does_modify fun s => hc.trans (hinodes rfl s _ s.fs.nextInode)
      (hhandles rfl _ _ s.fs.nextHandle)).leaves
  | forget | batchForget => exact (does_modify fun s => hinodes rfl s _ s.fs.nextInode).leaves
  | lookup _ parent name => exact (does_lookup ht (does_acquire (hinodes rfl)) parent name).leaves
  | link _ inode newparent newname =>
    exact (does_link ht (does_acquire (hinodes rfl)) inode newparent newname).leaves
  | «open» _ inode flags =>
    exact (does_openFile ht (does_insertHandle (hhandles rfl) inode) flags).leaves
  | opendir _ inode flags =>
    exact (does_doOpen ht (does_insertHandle (hhandles rfl) inode) _).leaves
  | release | releasedir =>
    exact (does_bind hc (does_getHandle hc _ _) fun _ =>
      does_modify fun s => hhandles rfl s _ s.fs.nextHandle).leaves
  | setupmapping _ inode req base size => exact (does_setupmapping ht inode req base size).leaves
  | removemapping _ reqs base size => exact (does_removemapping ht base size reqs).leaves
  | copyfilerange _ inodeIn req =>
    refine leaves_bind hc (does_getHandle hc _ _).leaves fun _ => ?_
    refine leaves_bind hc (does_getHandle hc _ _).leaves fun _ => ?_
    exact leaves_ite (fun _ => leaves_panic) fun _ => (does_sys ht _ rfl).leaves
  | mkdir | mknod | symlink | create => exact hcreds rfl
  | write => exact hcreds (by simpa [FsCall.plain, FsCall.impersonates] using hplain)
  | _ => exact absurd rfl hplain

theorem leaves_call (hR : TableRel R) (c : FsCall A)
    (hwriteback : ∀ s, R s { s with fs := { s.fs with writeback := true } })
    (hinodes : c.changesInodes = true → ∀ s inodes nextInode,
      R s { s with fs := { s.fs with inodes, nextInode } })
    (hhandles : c.changesHandles = true → ∀ s handles nextHandle,
      R s { s with fs := { s.fs with handles, nextHandle } }) : Leaves R (call host c) := by
  have hc := hR.toClosed
  have ht : Tame host R := tame_of_table hR
  have hlookup (h : c.changesInodes = true) := does_doLookup ht (does_acquire (hinodes h))
  refine leaves_call_of_tame ht c hwriteback hinodes hhandles fun himp => ?_
  cases c with
  | mkdir ctx parent name | mknod ctx parent name | symlink ctx _ parent name =>
    exact leaves_create hR ctx fun _ => hlookup rfl parent name
  | create ctx parent name =>
    refine leaves_create hR ctx fun file => does_bind hc (hlookup rfl parent name) fun entry => ?_
    exact does_bind hc (does_insertHandle (hhandles rfl) _ file) fun _ =>
      does_bind hc (does_get hc) fun _ => does_pure hc _
  | write ctx inode handle r size offset _ _ killPriv =>
    exact (does_write hR ctx inode handle r size offset killPriv).leaves
  | _ => cases himp

end Tables

/-! ## The functions beside the calls -/

section Follows

variable {K M : Type} {Q : Served × K → Served × K → Prop}
  {addEntry : DirEntry → Prog (Served × K) IoErr ℕ}

theorem leaves_direntLoop (hQ : Closed Q) (hadd : ∀ d, Leaves Q (addEntry d))
    (dirents : List DirEntry) : Leaves Q (direntLoop addEntry dirents) := by
  induction dirents with
  | nil => exact (does_pure hQ ()).leaves
  | cons d dirents ih =>
    refine leaves_bind hQ (leaves_ite (fun _ => (does_pure hQ 1).leaves) fun _ => hadd d)
      fun n => ?_
    exact leaves_ite (fun _ => (does_pure hQ ()).leaves) fun _ => ih

theorem closed_fst (hR : Closed R) : Closed fun p p' : Served × K => R p.1 p'.1 where
  refl p := hR.refl p.1
  trans h h' := hR.trans h h'

theorem leaves_doReaddir (hR : Tame host R) (hQ : Closed Q) (hfs : ∀ p s, R p.1 s → Q p (s, p.2))
    (inode handle : U64) (size : U32) (offset : U64) (hadd : ∀ d, Leaves Q (addEntry d)) :
    Leaves Q (doReaddir host inode handle size offset addEntry) := by
  have onFs {A : Type} {x : Step A} (hx : Does R x) : Leaves Q (onFs x) := leaves_zoom hx.leaves hfs
  refine leaves_ite (fun _ => (does_pure hQ ()).leaves) fun _ => ?_
  refine leaves_bind hQ (onFs (does_getHandle hR.toClosed inode handle)) fun _ => ?_
  refine leaves_bind hQ (onFs (does_sys hR _ rfl)) fun _ => ?_
  exact leaves_bind hQ (onFs (does_sys hR _ rfl)) fun dirents => leaves_direntLoop hQ hadd dirents

theorem leaves_read [GuestMemory M] (hR : Tame host R) (inode handle : U64) (w : Writer)
    (size : U32) (offset : U64) :
    Leaves (fun p p' : Served × M => R p.1 p'.1) (read host inode handle w size offset) := by
  intro p r p' h
  unfold read at h
  by_cases hinit : inode = p.1.fs.initInode
  · rw [if_pos hinit] at h
    split_ifs at h <;> cases h <;> exact hR.refl p.1
  · rw [if_neg hinit] at h
    split at h <;> cases h
    · exact hR.quiet (quiet_recordTransfer _ rfl _ p.1)
    · exact hR.refl p.1

theorem follows_of_tame [GuestMemory M] (hR : Tame host R)
    (hacquire : ∀ altkey file, Does R (acquire altkey file))
    (hcall : ∀ {A : Type} (c : FsCall A), Leaves R (call host c)) :
    Server.Follows (fileSystem M host) R where
  toClosed := hR.toClosed
  call := hcall
  read _ inode handle w size offset _ _ := leaves_read hR inode handle w size offset
  readdir _ inode handle size offset _ :=
    leaves_doReaddir hR (closed_fst hR.toClosed) (fun _ _ h => h) inode handle size offset fun _ =>
      leaves_zoom (Q := fun _ _ => True) (fun _ _ _ _ => trivial) fun p _ _ => hR.refl p.1
  readdirplus _ inode handle size offset _ :=
    leaves_doReaddir hR (closed_fst hR.toClosed) (fun _ _ h => h) inode handle size offset fun d =>
      leaves_bind (closed_fst hR.toClosed)
        (leaves_zoom (does_doLookup hR hacquire inode d.name).leaves fun _ _ h => h) fun _ =>
        leaves_zoom (Q := fun _ _ => True) (fun _ _ _ _ => trivial) fun p _ _ => hR.refl p.1

end Follows

end Passthrough

end Shelter.Fs
