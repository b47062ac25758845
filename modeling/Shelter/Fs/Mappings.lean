import Shelter.Fs.Calls
import Shelter.Fs.Session

/-!
# The mappings of the shared-memory window

`setupmapping` and `removemapping` map pages at fixed addresses of the host. The check of a range
adds two words of the guest, and the sum may wrap; and the ranges of one `removemapping` are checked
one by one, while the earlier ones are mapped already. `mappings_confined_iff` says for which
requests every mapping lies in the window and a refused request maps nothing.

1. `mmap_run` is one mapping, and `inWindow_iff` says when it lies in the window.
2. `setupmapping_spec` and `removemapping_spec` say which ranges a request maps, and how it ends.
-/

namespace Shelter.Fs

open Virtio Prog List

/-- The window is made of whole pages of the address space. -/
structure VirtioShmRegion.Placed (shm : VirtioShmRegion) : Prop where
  aligned : shm.hostAddr.toNat % pageSize = 0
  whole : shm.size.toNat % pageSize = 0
  fits : shm.hostAddr.toNat + shm.size.toNat ≤ 2 ^ 64

def VirtioShmRegion.InWindow (shm : VirtioShmRegion) (addr len : U64) : Prop :=
  shm.hostAddr.toNat ≤ addr.toNat ∧
    addr.toNat + pageAlign len.toNat ≤ shm.hostAddr.toNat + shm.size.toNat

def Performed.mapping? (p : Performed) : Option (U64 × U64) :=
  match p.call, p.ok with
  | .mmap addr len _ _ _ _, true => some (addr, len)
  | _, _ => none

def Served.mapped (s : Served) : List (U64 × U64) := s.thread.log.filterMap Performed.mapping?

/-- The mappings of a request lie in the window, and there are none if it was refused. -/
def MappingsRight (shm : VirtioShmRegion) (s : Served) (out : Option (Except IoErr Unit × Served)) :
    Prop :=
  ∃ r s' new, out = some (r, s') ∧ s'.mapped = s.mapped ++ new ∧
    (∀ q ∈ new, shm.InWindow q.1 q.2) ∧ (r = .error (.os .einval) → new = [])

/-! ## One range -/

section Range

variable (shm : VirtioShmRegion) (moffset len : U64)

/-- The check, or the kernel, refuses the range with `EINVAL`. -/
def Refused : Prop :=
  shm.size < moffset + len ∨ (shm.hostAddr + moffset).toNat % pageSize ≠ 0 ∨ len = 0

/-- The kernel does not have to refuse a mapping of these pages. -/
def Acceptable (addr len : U64) : Prop :=
  addr.toNat % pageSize = 0 ∧ len ≠ 0 ∧ addr.toNat + pageAlign len.toNat ≤ 2 ^ 64

/-- The range passes the check and the kernel does not have to refuse it. -/
def Mappable : Prop :=
  ¬ Refused shm moffset len ∧ (shm.hostAddr + moffset).toNat + pageAlign len.toNat ≤ 2 ^ 64

variable {shm moffset len}

theorem mappable_of_checks (hcheck : ¬ shm.size < moffset + len)
    (h : Acceptable (shm.hostAddr + moffset) len) : Mappable shm moffset len :=
  ⟨fun href => href.elim hcheck fun href => href.elim (absurd h.1) (absurd · h.2.1), h.2.2⟩

theorem Mappable.checks (h : Mappable shm moffset len) :
    ¬ shm.size < moffset + len ∧ Acceptable (shm.hostAddr + moffset) len := by
  obtain ⟨href, hfits⟩ := h
  rw [Refused, not_or, not_or, not_not] at href
  exact ⟨href.1, href.2.1, href.2.2, hfits⟩

theorem inWindow_iff_le (hshm : shm.Placed)
    (haligned : (shm.hostAddr + moffset).toNat % pageSize = 0) (hlen : len ≠ 0) :
    shm.InWindow (shm.hostAddr + moffset) len ↔ moffset.toNat + len.toNat ≤ shm.size.toNat := by
  have hlen' : len.toNat ≠ 0 := fun h => hlen (BitVec.eq_of_toNat_eq h)
  have ha := hshm.aligned
  have hw := hshm.whole
  have hf := hshm.fits
  unfold VirtioShmRegion.InWindow
  rw [BitVec.toNat_add] at haligned ⊢
  unfold pageAlign
  unfold pageSize at *
  constructor <;> intro h <;> omega

theorem inWindow_iff (hshm : shm.Placed) (h : Mappable shm moffset len) :
    shm.InWindow (shm.hostAddr + moffset) len ↔ moffset.toNat + len.toNat ≤ shm.size.toNat := by
  obtain ⟨-, haligned, hlen, -⟩ := h.checks
  exact inWindow_iff_le hshm haligned hlen

end Range

theorem Quiet.mapped {s s' : Served} (h : Quiet s s') : s'.mapped = s.mapped := by
  obtain ⟨new, hlog, hnew⟩ := h.log
  have hnone : new.filterMap Performed.mapping? = [] := by
    rw [filterMap_eq_nil_iff]
    rintro ⟨call, euid, egid, requester, ok⟩ hp
    have hquiet := (hnew _ hp).2
    cases call <;> first | rfl | cases hquiet
  rw [Served.mapped, hlog, filterMap_append, hnone, append_nil, Served.mapped]

namespace Passthrough

theorem mapped_mmap (s : Served) (addr len : U64) (prot flags : U32) (fd : Option Fd) (offset : U64)
    (ok : Bool) :
    Served.mapped { s with
        thread := s.thread.perform (.mmap addr len prot flags fd offset) none ok } =
      s.mapped ++ if ok then [(addr, len)] else [] := by
  cases ok <;> simp [Served.mapped, Thread.perform, Performed.mapping?]

variable {host : Host} {addr len inode : U64} {n : ℕ} {s : Served} {shm : VirtioShmRegion}

theorem mmapAnswer_ok {fd : Option Fd} (h : mmapAnswer host addr len fd n = .ok ()) :
    Acceptable addr len := by
  unfold mmapAnswer at h
  split_ifs at h with hbad hlong
  rw [not_or, not_not] at hbad
  exact ⟨hbad.1, hbad.2, Nat.le_of_not_lt hlong⟩

theorem mmapAnswer_einval (h : mmapAnswer host addr len none n = .error .einval) :
    addr.toNat % pageSize ≠ 0 ∨ len = 0 := by
  unfold mmapAnswer at h
  split_ifs at h with hbad hlong
  · exact hbad
  · exact absurd h (by decide)
  · exact absurd h (host.anonymous_ne_einval n)

theorem mmap_run (host : Host) (addr len : U64) (prot flags : U32) (fd : Option Fd) (offset : U64)
    (s : Served) :
    ∃ r s', mmap host addr len prot flags fd offset s = some (r, s') ∧ s'.fs = s.fs ∧
      ((r = .ok () ∧ s'.mapped = s.mapped ++ [(addr, len)] ∧ Acceptable addr len) ∨
        ∃ code, r = .error (.os code) ∧ s'.mapped = s.mapped ∧
          (fd = none → code = .einval → addr.toNat % pageSize ≠ 0 ∨ len = 0)) := by
  refine ⟨_, _, rfl, rfl, ?_⟩
  rw [mapped_mmap]
  rcases hans : mmapAnswer host addr len fd s.thread.log.length with code | _
  · refine .inr ⟨code, rfl, append_nil _, ?_⟩
    rintro rfl rfl
    exact mmapAnswer_einval hans
  · exact .inl ⟨rfl, rfl, mmapAnswer_ok hans⟩

theorem mmap_calm (h : Acceptable addr len) (prot flags : U32) (fd : Option Fd) (offset : U64)
    (s : Served) :
    ∃ s', mmap calmHost addr len prot flags fd offset s = some (.ok (), s') ∧ s'.fs = s.fs ∧
      s'.mapped = s.mapped ++ [(addr, len)] := by
  have hanswer (n : ℕ) : mmapAnswer calmHost addr len fd n = .ok () := by
    unfold mmapAnswer
    rw [if_neg (not_or.mpr ⟨not_not.mpr h.1, h.2.1⟩), if_neg (Nat.not_lt.mpr h.2.2)]
    cases fd <;> rfl
  refine ⟨{ s with thread := s.thread.perform (.mmap addr len prot flags fd offset) none true }, ?_,
    rfl, mapped_mmap s addr len prot flags fd offset true⟩
  unfold mmap sys sysFor
  simp only [hanswer]
  rfl

/-! ## Setting up a mapping -/

theorem sys_error {A : Type} {answer : ℕ → Except Errno A} {c : SysCall} {s' : Served}
    {code : Errno} (h : sys answer c s = some (.error (.os code), s')) :
    answer s.thread.log.length = .error code := by
  unfold sys sysFor at h
  rcases hans : answer s.thread.log.length with e | a <;> rw [hans] at h <;> cases h
  rfl

def Known (s : Served) (inode : U64) : Prop :=
  inode = s.fs.initInode ∨ s.fs.inodes.get inode ≠ none

theorem openInode_cases (host : Host) (inode : U64) (flags : U32) (s : Served) :
    ∃ r s', openInode host inode flags s = some (r, s') ∧ s'.mapped = s.mapped ∧
      (∀ fd, r = .ok fd → s.fs.inodes.get inode ≠ none) := by
  obtain ⟨r, s', hrun, hquiet⟩ := quiet_openInode host inode flags s
  refine ⟨r, s', hrun, hquiet.mapped, ?_⟩
  rintro fd rfl hnone
  unfold openInode at hrun
  have hget : getInode inode s = some (.error (.os .ebadf), s) := by
    unfold getInode
    rw [bind_ok (get_run s), hnone]
    rfl
  cases (bind_error hget).symm.trans hrun

theorem openInode_calm (h : s.fs.inodes.get inode ≠ none) (flags : U32) :
    ∃ fd s', openInode calmHost inode flags s = some (.ok fd, s') ∧ s'.mapped = s.mapped := by
  obtain ⟨data, hdata⟩ := Option.ne_none_iff_exists'.mp h
  have hget : getInode inode s = some (.ok data, s) := by
    unfold getInode
    rw [bind_ok (get_run s), hdata]
    rfl
  obtain ⟨r, s', hrun, hquiet⟩ := quiet_openInode calmHost inode flags s
  have hrun' := hrun
  unfold openInode at hrun'
  rw [bind_ok hget, bind_ok (get_run s)] at hrun'
  obtain ⟨rfl, -⟩ := Prod.mk.inj (Option.some.inj hrun'.symm)
  exact ⟨_, s', hrun, hquiet.mapped⟩

theorem setupmapping_spec (host : Host) (shm : VirtioShmRegion) (inode : U64) (req : SetupmappingIn)
    (s : Served) :
    ∃ r s' new, setupmapping host inode req shm.hostAddr shm.size s = some (r, s') ∧
      s'.mapped = s.mapped ++ new ∧
      (new = [] ∨ (new = [(shm.hostAddr + req.moffset, req.len)] ∧ Known s inode ∧
        Mappable shm req.moffset req.len ∧ r ≠ .error (.os .einval))) := by
  unfold setupmapping
  by_cases hcheck : shm.size < req.moffset + req.len
  · rw [if_pos hcheck]
    exact ⟨_, s, [], rfl, (append_nil _).symm, .inl rfl⟩
  rw [if_neg hcheck, bind_ok (get_run s)]
  by_cases hinit : inode = s.fs.initInode
  · rw [if_pos hinit]
    obtain ⟨r, s', hrun, -, ⟨rfl, hmap, hok⟩ | ⟨code, rfl, hmap, -⟩⟩ :=
      mmap_run host (shm.hostAddr + req.moffset) req.len (protRead ||| protWrite)
        (mapPrivate ||| mapAnonymous ||| mapFixed) none 0 s
    · exact ⟨_, s', _, hrun, hmap, .inr ⟨rfl, .inl hinit, mappable_of_checks hcheck hok, nofun⟩⟩
    · exact ⟨_, s', [], hrun, by rw [hmap, append_nil], .inl rfl⟩
  rw [if_neg hinit]
  obtain ⟨e | fd, s₁, hopen, hmap₁, hknown⟩ := openInode_cases host inode
    (if req.flags &&& 1 ≠ 0 then oRdwr else 0) s
  · exact ⟨_, s₁, [], bind_error hopen, by rw [hmap₁, append_nil], .inl rfl⟩
  rw [bind_ok hopen]
  obtain ⟨r, s₂, hrun, -, ⟨rfl, hmap₂, hok⟩ | ⟨code, rfl, hmap₂, -⟩⟩ :=
    mmap_run host (shm.hostAddr + req.moffset) req.len
      (if req.flags &&& 1 ≠ 0 then protRead ||| protWrite else protRead)
      (mapShared ||| mapFixed) (some fd) req.foffset s₁
  · rw [bind_ok hrun]
    obtain ⟨r, s₃, hclose, hquiet⟩ :=
      quiet_sys host.closed (rfl : (SysCall.close fd).quiet = true) s₂
    refine ⟨r, s₃, _, hclose, by rw [hquiet.mapped, hmap₂, hmap₁],
      .inr ⟨rfl, .inr (hknown fd rfl), mappable_of_checks hcheck hok, ?_⟩⟩
    rintro rfl
    exact host.closed_ne_einval _ (sys_error hclose)
  · exact ⟨_, s₂, [], bind_error hrun, by rw [hmap₂, hmap₁, append_nil], .inl rfl⟩

theorem setupmapping_calm {req : SetupmappingIn} (hknown : Known s inode)
    (h : Mappable shm req.moffset req.len) :
    ∃ r s', setupmapping calmHost inode req shm.hostAddr shm.size s = some (r, s') ∧
      s'.mapped = s.mapped ++ [(shm.hostAddr + req.moffset, req.len)] := by
  obtain ⟨hcheck, hok⟩ := h.checks
  unfold setupmapping
  rw [if_neg hcheck, bind_ok (get_run s)]
  by_cases hinit : inode = s.fs.initInode
  · rw [if_pos hinit]
    obtain ⟨s', hrun, -, hmap⟩ := mmap_calm hok (protRead ||| protWrite)
      (mapPrivate ||| mapAnonymous ||| mapFixed) none 0 s
    exact ⟨_, s', hrun, hmap⟩
  · rw [if_neg hinit]
    obtain ⟨fd, s₁, hopen, hmap₁⟩ := openInode_calm (hknown.resolve_left hinit)
      (if req.flags &&& 1 ≠ 0 then oRdwr else 0)
    obtain ⟨s₂, hrun, -, hmap₂⟩ := mmap_calm hok
      (if req.flags &&& 1 ≠ 0 then protRead ||| protWrite else protRead) (mapShared ||| mapFixed)
      (some fd) req.foffset s₁
    obtain ⟨r, s₃, hclose, hquiet⟩ :=
      quiet_sys calmHost.closed (rfl : (SysCall.close fd).quiet = true) s₂
    exact ⟨r, s₃, by rw [bind_ok hopen, bind_ok hrun, hclose], by rw [hquiet.mapped, hmap₂, hmap₁]⟩

/-! ## Removing mappings -/

theorem removemapping_spec (host : Host) (shm : VirtioShmRegion) (reqs : List RemovemappingOne)
    (s : Served) :
    ∃ r s' done rest, removemapping host shm.hostAddr shm.size reqs s = some (r, s') ∧
      reqs = done ++ rest ∧ (∀ q ∈ done, Mappable shm q.moffset q.len) ∧
      s'.mapped = s.mapped ++ done.map (fun q => (shm.hostAddr + q.moffset, q.len)) ∧
      (r = .error (.os .einval) → ∃ q post, rest = q :: post ∧ Refused shm q.moffset q.len) := by
  induction reqs generalizing s with
  | nil => exact ⟨_, s, [], [], rfl, rfl, nofun, by simp, nofun⟩
  | cons req reqs ih =>
    unfold removemapping
    split_ifs with hcheck
    · exact ⟨_, s, [], req :: reqs, rfl, rfl, nofun, by simp,
        fun _ => ⟨req, reqs, rfl, .inl hcheck⟩⟩
    obtain ⟨r, s₁, hrun, -, ⟨rfl, hmap, hok⟩ | ⟨code, rfl, hmap, hcode⟩⟩ :=
      mmap_run host (shm.hostAddr + req.moffset) req.len 0
        (mapAnonymous ||| mapPrivate ||| mapFixed) none 0 s
    · obtain ⟨r, s₂, done, rest, hrun', hreqs, hdone, hmap', hend⟩ := ih s₁
      refine ⟨r, s₂, req :: done, rest, (bind_ok hrun).trans hrun', by rw [hreqs]; rfl,
        forall_mem_cons.mpr ⟨mappable_of_checks hcheck hok, hdone⟩, ?_, hend⟩
      rw [hmap', hmap, append_assoc]
      rfl
    · refine ⟨_, s₁, [], req :: reqs, bind_error hrun, rfl, nofun, by simp [hmap], fun h => ?_⟩
      cases h
      exact ⟨req, reqs, rfl, .inr (hcode rfl rfl)⟩

theorem removemapping_calm {pre : List RemovemappingOne}
    (hpre : ∀ q ∈ pre, Mappable shm q.moffset q.len) (reqs : List RemovemappingOne) (s : Served) :
    ∃ s', removemapping calmHost shm.hostAddr shm.size (pre ++ reqs) s =
        removemapping calmHost shm.hostAddr shm.size reqs s' ∧
      s'.mapped = s.mapped ++ pre.map fun q => (shm.hostAddr + q.moffset, q.len) := by
  induction pre generalizing s with
  | nil => exact ⟨s, rfl, by simp⟩
  | cons req pre ih =>
    obtain ⟨⟨hcheck, hok⟩, hpre⟩ := (forall_mem_cons.mp hpre).imp_left Mappable.checks
    obtain ⟨s₁, hrun, -, hmap⟩ :=
      mmap_calm hok 0 (mapAnonymous ||| mapPrivate ||| mapFixed) none 0 s
    obtain ⟨s₂, hrun', hmap'⟩ := ih hpre s₁
    refine ⟨s₂, ?_, ?_⟩
    · rw [cons_append, removemapping, if_neg hcheck, bind_ok hrun, hrun']
    · rw [hmap', hmap, append_assoc]
      rfl

theorem removemapping_refused (host : Host) {req : RemovemappingOne}
    (h : Refused shm req.moffset req.len) (post : List RemovemappingOne) (s : Served) :
    ∃ s', removemapping host shm.hostAddr shm.size (req :: post) s =
        some (.error (.os .einval), s') ∧ s'.mapped = s.mapped := by
  unfold removemapping
  split_ifs with hcheck
  · exact ⟨s, rfl, rfl⟩
  · -- the kernel refuses what the check lets through
    have hanswer : mmapAnswer host (shm.hostAddr + req.moffset) req.len none s.thread.log.length =
        .error .einval := if_pos (h.resolve_left hcheck)
    refine ⟨{ s with thread := s.thread.perform (.mmap (shm.hostAddr + req.moffset) req.len 0
      (mapAnonymous ||| mapPrivate ||| mapFixed) none 0) none false }, bind_error ?_, ?_⟩
    · unfold mmap sys sysFor
      simp only [hanswer]
      rfl
    · rw [mapped_mmap]
      exact append_nil _

/-! ## The requests -/

def SetupFits (shm : VirtioShmRegion) (s : Served) (inode : U64) (req : SetupmappingIn) : Prop :=
  Known s inode → Mappable shm req.moffset req.len →
    req.moffset.toNat + req.len.toNat ≤ shm.size.toNat

/-- Of the ranges up to the first one that is not mapped, those that are lie in the window, and only
the first may be refused. -/
def RemoveFits (shm : VirtioShmRegion) (reqs : List RemovemappingOne) : Prop :=
  ∀ pre req post, reqs = pre ++ req :: post → (∀ q ∈ pre, Mappable shm q.moffset q.len) →
    (Refused shm req.moffset req.len → pre = []) ∧
      (Mappable shm req.moffset req.len → req.moffset.toNat + req.len.toNat ≤ shm.size.toNat)

theorem setupmapping_right_iff (hshm : shm.Placed) (s : Served) (inode : U64)
    (req : SetupmappingIn) :
    (∀ host, MappingsRight shm s (setupmapping host inode req shm.hostAddr shm.size s)) ↔
      SetupFits shm s inode req := by
  constructor
  · intro h hknown hmappable
    obtain ⟨r, s', hrun, hmap⟩ := setupmapping_calm hknown hmappable
    obtain ⟨r', s'', new, hrun', hnew, hwindow, -⟩ := h calmHost
    cases hrun.symm.trans hrun'
    rw [hmap, append_cancel_left_eq] at hnew
    exact (inWindow_iff hshm hmappable).mp (hwindow _ (hnew ▸ mem_singleton_self _))
  · intro h host
    obtain ⟨r, s', new, hrun, hmap, rfl | ⟨rfl, hknown, hmappable, hr⟩⟩ :=
      setupmapping_spec host shm inode req s
    · exact ⟨r, s', [], hrun, hmap, nofun, fun _ => rfl⟩
    · exact ⟨r, s', _, hrun, hmap,
        forall_mem_singleton.mpr ((inWindow_iff hshm hmappable).mpr (h hknown hmappable)),
        fun he => absurd he hr⟩

theorem removemapping_right_iff (hshm : shm.Placed) (s : Served) (reqs : List RemovemappingOne) :
    (∀ host, MappingsRight shm s (removemapping host shm.hostAddr shm.size reqs s)) ↔
      RemoveFits shm reqs := by
  constructor
  · intro h pre req post hreqs hpre
    obtain ⟨r, s', new, hrun, hnew, hwindow, hrefused⟩ := h calmHost
    obtain ⟨s₁, hpre', hmap⟩ := removemapping_calm hpre (req :: post) s
    rw [hreqs, hpre'] at hrun
    constructor
    · intro href
      obtain ⟨s₂, hrun₂, hmap₂⟩ := removemapping_refused calmHost href post s₁
      cases hrun₂.symm.trans hrun
      rw [hmap₂, hmap, append_cancel_left_eq, hrefused rfl] at hnew
      exact map_eq_nil_iff.mp hnew
    · intro hmappable
      obtain ⟨s₂, hone, hmap₂⟩ :=
        removemapping_calm (forall_mem_singleton.mpr hmappable) post s₁
      obtain ⟨r', s₃, done, rest, hrun₃, -, -, hmap₃, -⟩ :=
        removemapping_spec calmHost shm post s₂
      rw [show req :: post = [req] ++ post from rfl, hone, hrun₃] at hrun
      cases hrun
      rw [hmap₃, hmap₂, hmap, append_assoc, append_assoc,
        append_cancel_left_eq] at hnew
      refine (inWindow_iff hshm hmappable).mp (hwindow (shm.hostAddr + req.moffset, req.len) ?_)
      rw [← hnew]
      simp
  · intro h host
    obtain ⟨r, s', done, rest, hrun, hreqs, hdone, hmap, hend⟩ := removemapping_spec host shm reqs s
    refine ⟨r, s', _, hrun, hmap, ?_, ?_⟩
    · intro q hq
      obtain ⟨req, hreq, rfl⟩ := mem_map.mp hq
      obtain ⟨pre, post, rfl⟩ := append_of_mem hreq
      have hmem := h pre req (post ++ rest) (by rw [hreqs]; simp) fun q hq =>
        hdone q (mem_append_left _ hq)
      exact (inWindow_iff hshm (hdone req hreq)).mpr (hmem.2 (hdone req hreq))
    · intro hr
      obtain ⟨q, post, rfl, href⟩ := hend hr
      rw [(h done q post hreqs hdone).1 href]
      rfl

/-- For which requests the mappings stay in the window, and a refusal maps nothing, on every
host. -/
theorem mappings_confined_iff {shm : VirtioShmRegion} (hshm : shm.Placed) (ctx : Context)
    (s : Served) :
    (∀ inode req, (∀ host, MappingsRight shm s
        (call host (.setupmapping ctx inode req shm.hostAddr shm.size) s)) ↔
      SetupFits shm s inode req) ∧
    ∀ reqs, (∀ host, MappingsRight shm s
        (call host (.removemapping ctx reqs shm.hostAddr shm.size) s)) ↔ RemoveFits shm reqs :=
  ⟨setupmapping_right_iff hshm s, removemapping_right_iff hshm s⟩

def smallWindow : VirtioShmRegion := ⟨0x100000, 0x10000⟩

theorem smallWindow_placed : smallWindow.Placed := ⟨by decide, by decide, by decide⟩

def smallServed : Served := ⟨.new smallConfig 3, ⟨0, 0, []⟩⟩

/-- The second page of the window is mapped as it should be. -/
theorem mappings_confined_page :
    smallWindow.Placed ∧ ∀ host, MappingsRight smallWindow smallServed
      (call host (.setupmapping ⟨0, 0, 1⟩ 2 ⟨0, 0, 0x1000, 0, 0x1000⟩ smallWindow.hostAddr
        smallWindow.size) smallServed) :=
  ⟨smallWindow_placed, ((mappings_confined_iff smallWindow_placed ⟨0, 0, 1⟩ smallServed).1 2
    ⟨0, 0, 0x1000, 0, 0x1000⟩).mpr fun _ _ => by decide⟩

/-- A sum that wraps passes the check, and the page before the window is mapped. A second range that
is refused comes too late for the first. -/
theorem mappings_escape :
    (∃ s', call calmHost (.setupmapping ⟨0, 0, 1⟩ 2 ⟨0, 0, 0x1000, 0, -0x1000⟩
        smallWindow.hostAddr smallWindow.size) smallServed = some (.ok (), s') ∧
      s'.mapped = [(0xff000, 0x1000)]) ∧
    ¬ smallWindow.InWindow 0xff000 0x1000 ∧
    ∃ s', call calmHost (.removemapping ⟨0, 0, 1⟩ [⟨0, 0x1000⟩, ⟨0x20000, 0x1000⟩]
        smallWindow.hostAddr smallWindow.size) smallServed = some (.error (.os .einval), s') ∧
      s'.mapped = [(0x100000, 0x1000)] :=
  ⟨⟨_, rfl, by decide +kernel⟩, fun h => absurd h.1 (by decide), _, rfl, by decide +kernel⟩

end Passthrough

end Shelter.Fs
