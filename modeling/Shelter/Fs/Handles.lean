import Mathlib.Data.List.Nodup
import Shelter.Fs.Calls
import Shelter.Fs.Session
import Shelter.Lib.Tickets

/-!
# The handles of open files

A handle is a ticket for an inode: `open`, `opendir` and `create` hand it out, `release` and
`releasedir` take it back. Over every sequence of calls without a `destroy`, the table of the
handles holds the tickets that are out, and these are the pairs that `read`, `write`, `readdir` and
`release` accept.

1. `call_handles` says what a call does to the table, in terms of what it returns.
2. `Issuing` is the invariant of a sequence: the handles are numbered.
3. `accepts_read` and its like say what accepting a pair means for the table.

A `readdir` of size 0 is answered before the pair is looked at, and so is a `write` whose
credentials cannot be set.
-/

namespace Shelter.Fs

open Virtio Prog Tickets DescriptorChainConsumer List

abbrev HandleHistory := List (Event U64 U64)

abbrev AnyCall := (A : Type) × FsCall A

def FsCall.isDestroy {A : Type} : FsCall A → Bool
  | .destroy => true
  | _ => false

namespace Passthrough

variable {A : Type} {host : Host}

/-- What the result of a call means for the handles. The built-in program is opened without one. -/
def handleEvents (s : Served) : FsCall A → Except IoErr A → HandleHistory
  | .open _ inode _, .ok (some handle, _) =>
    if inode = s.fs.initInode then [] else [.issued handle inode]
  | .opendir _ inode _, .ok (some handle, _) => [.issued handle inode]
  | .create .., .ok (entry, some handle, _) => [.issued handle entry.inode]
  | .release _ _ _ handle .., .ok () | .releasedir _ _ _ handle, .ok () => [.returned handle]
  | _, _ => []

def serve (host : Host) (st : Served × HandleHistory) (q : AnyCall) :
    Option (Served × HandleHistory) :=
  (call host q.2 st.1).map fun out => (out.2, st.2 ++ handleEvents st.1 q.2 out.1)

/-! ## What a call does to the table -/

structure KeepsHandles (s s' : Served) : Prop where
  handles : s'.fs.handles = s.fs.handles
  next : s'.fs.nextHandle = s.fs.nextHandle

def HandlesAfter (s s' : Served) : HandleHistory → Prop
  | [] => KeepsHandles s s'
  | [.issued handle inode] => handle = s.fs.nextHandle ∧ s'.fs.nextHandle = handle + 1 ∧
      ∃ file, s'.fs.handles = Function.update s.fs.handles handle (some ⟨inode, file⟩)
  | [.returned handle] => s'.fs.nextHandle = s.fs.nextHandle ∧
      s'.fs.handles = Function.update s.fs.handles handle none
  | _ => False

theorem tableRel_keepsHandles : TableRel KeepsHandles where
  refl _ := ⟨rfl, rfl⟩
  trans h h' := ⟨h'.handles.trans h.handles, h'.next.trans h.next⟩
  thread _ _ := ⟨rfl, rfl⟩

variable {s s' s₁ : Served} {inode handle : U64} {events : HandleHistory} {flags : U32}
  {ctx : Context} {r : Except IoErr A} {syscall : SysCall} {count : ℕ} {killPriv : Bool} {K : Type}

theorem keepsHandles_of_fs (h : s'.fs = s.fs) : KeepsHandles s s' :=
  tableRel_keepsHandles.of_fs h

theorem keepsHandles_acquire (altkey : InodeAltKey) (file : Fd) :
    Does KeepsHandles (acquire altkey file) := by
  intro s
  unfold acquire
  cases s.fs.inodes.getAlt altkey with
  | none | some => exact ⟨_, _, rfl, rfl, rfl⟩

theorem handlesAfter_insert {file : Fd} (hs : KeepsHandles s s₁)
    (h : insertHandle inode file s₁ = some (.ok handle, s')) :
    HandlesAfter s s' [.issued handle inode] := by
  cases h
  exact ⟨hs.next, rfl, file, by rw [← hs.handles]⟩

theorem HandlesAfter.of_fs (h : HandlesAfter s s₁ events) (hs : s'.fs = s₁.fs) :
    HandlesAfter s s' events := by
  match events, h with
  | [], h => exact tableRel_keepsHandles.trans h (keepsHandles_of_fs hs)
  | [.issued handle inode], h =>
    rw [HandlesAfter, hs]
    exact h
  | [.returned handle], h =>
    rw [HandlesAfter, hs]
    exact h

theorem doOpen_handles {r : Except IoErr (Option U64 × U32)}
    (h : doOpen host inode flags s = some (r, s')) :
    (∃ e, r = .error e ∧ KeepsHandles s s') ∨
      ∃ handle opts, r = .ok (some handle, opts) ∧ HandlesAfter s s' [.issued handle inode] := by
  have hopen : Does KeepsHandles (openInode host inode flags) :=
    (quiet_openInode host inode flags).mono fun _ _ h => keepsHandles_of_fs h.fs
  obtain hfail | ⟨file, s₁, -, hs₁, h⟩ := hopen.leaves.bind_cases h
  · exact .inl hfail
  obtain ⟨e, ⟨⟩, -⟩ | ⟨handle, s₂, h₂, h⟩ := Prog.bind_cases h
  cases h
  exact .inr ⟨handle, _, rfl, handlesAfter_insert hs₁ h₂⟩

theorem openFile_handles {r : Except IoErr (Option U64 × U32)} (ctx : Context)
    (h : openFile host inode flags s = some (r, s')) :
    HandlesAfter s s' (handleEvents s (.open ctx inode flags) r) := by
  unfold openFile at h
  rw [bind_ok (get_run s)] at h
  split_ifs at h with hinit
  · cases h
    change HandlesAfter s s (if inode = s.fs.initInode then [] else _)
    rw [if_pos hinit]
    exact keepsHandles_of_fs rfl
  · obtain ⟨e, rfl, hs⟩ | ⟨handle, opts, rfl, hs⟩ := doOpen_handles h
    · exact hs
    · change HandlesAfter s s' (if inode = s.fs.initInode then [] else _)
      rw [if_neg hinit]
      exact hs

theorem create_handles {parent : U64} {name : CStr} {mode umask : U32} {extensions : Extensions}
    {r : Except IoErr (Entry × Option U64 × U32)}
    (h : create host ctx parent name mode flags umask extensions s = some (r, s')) :
    HandlesAfter s s' (handleEvents s (.create ctx parent name mode flags umask extensions) r) := by
  have hR := tableRel_keepsHandles
  have hc := hR.toClosed
  unfold create at h
  split_ifs at h
  · cases h
  obtain ⟨e, rfl, hs⟩ | ⟨s₁, s₂, hs₁, h, hs'⟩ := withCreds_cases h
  · exact keepsHandles_of_fs hs
  have hs₁ := keepsHandles_of_fs hs₁
  refine HandlesAfter.of_fs ?_ hs'
  obtain ⟨e, rfl, hs₂⟩ | ⟨data, s₃, -, hs₃, h⟩ := (does_getInode hc parent).leaves.bind_cases h
  · exact hc.trans hs₁ hs₂
  obtain ⟨e, rfl, hs₂⟩ | ⟨file, s₄, -, hs₄, h⟩ := (does_sysFor hR _ _ _).leaves.bind_cases h
  · exact hc.trans hs₁ (hc.trans hs₃ hs₂)
  have hlookup : Does KeepsHandles (doLookup host parent name) :=
    does_doLookup (tame_of_table hR) keepsHandles_acquire parent name
  obtain ⟨e, rfl, hs₂⟩ | ⟨entry, s₅, -, hs₅, h⟩ := hlookup.leaves.bind_cases h
  · exact hc.trans hs₁ (hc.trans hs₃ (hc.trans hs₄ hs₂))
  obtain ⟨e, ⟨⟩, -⟩ | ⟨handle, s₆, h₆, h⟩ := Prog.bind_cases h
  cases h
  exact handlesAfter_insert (hc.trans hs₁ (hc.trans hs₃ (hc.trans hs₄ hs₅))) h₆

theorem doRelease_run (inode handle : U64) (s : Served) :
    doRelease inode handle s = match openFileOf s inode handle with
      | some _ => some (.ok (), { s with fs := { s.fs with
          handles := Function.update s.fs.handles handle none } })
      | none => some (.error (.os .ebadf), s) := by
  have h := getHandle_run inode handle s
  cases hopen : openFileOf s inode handle <;> rw [hopen] at h
  · exact bind_error h
  · exact bind_ok h

theorem doRelease_handles {r : Except IoErr Unit} (h : doRelease inode handle s = some (r, s')) :
    HandlesAfter s s' (match r with | .ok () => [.returned handle] | .error _ => []) := by
  rw [doRelease_run] at h
  split at h <;> cases h
  · exact ⟨rfl, rfl⟩
  · exact keepsHandles_of_fs rfl

theorem call_handles {c : FsCall A} (hc : c.isDestroy = false) (h : call host c s = some (r, s')) :
    HandlesAfter s s' (handleEvents s c r) := by
  -- all other calls leave them alone
  have hkeeps (hother : c.changesHandles = false) : KeepsHandles s s' :=
    leaves_call tableRel_keepsHandles c (fun _ => ⟨rfl, rfl⟩) (fun _ _ _ _ => ⟨rfl, rfl⟩)
      (fun hh => absurd (hother.symm.trans hh) Bool.false_ne_true) _ _ _ h
  cases c with
  | destroy => cases hc
  | «open» ctx inode flags => exact openFile_handles ctx h
  | opendir ctx inode flags =>
    obtain ⟨e, rfl, hs⟩ | ⟨handle, opts, rfl, hs⟩ := doOpen_handles h
    · exact hs
    · exact hs
  | create ctx parent name => exact create_handles h
  | release | releasedir =>
    cases r <;> exact doRelease_handles h
  | _ => exact hkeeps rfl

/-! ## Sequences of calls -/

def inodeOfHandle (s : Served) (handle : U64) : Option U64 :=
  (s.fs.handles handle).map HandleData.inode

def firstHandles (n : ℕ) : List U64 := (List.range n).map fun i => BitVec.ofNat 64 (i + 1)

theorem firstHandles_succ (n : ℕ) :
    firstHandles (n + 1) = firstHandles n ++ [BitVec.ofNat 64 (n + 1)] := by
  rw [firstHandles, range_succ, map_append]
  rfl

theorem nodup_firstHandles {n : ℕ} (h : n < 2 ^ 64) : (firstHandles n).Nodup := by
  refine List.Nodup.map_on (fun i hi j hj hij => ?_) nodup_range
  rw [mem_range] at hi hj
  have := congrArg BitVec.toNat hij
  simp only [BitVec.toNat_ofNat] at this
  omega

/-- The handles are issued in order; and the table follows the history, until the numbers
begin anew. -/
structure Issuing (s : Served) (history : HandleHistory) : Prop where
  next : s.fs.nextHandle = BitVec.ofNat 64 ((issues history).length + 1)
  numbered : issues history = firstHandles (issues history).length
  tracks : (issues history).length < 2 ^ 64 → Tracks (inodeOfHandle s) history

theorem inodeOfHandle_update {data : Option HandleData}
    (h : s'.fs.handles = Function.update s.fs.handles handle data) :
    inodeOfHandle s' = Function.update (inodeOfHandle s) handle (data.map HandleData.inode) := by
  funext t
  unfold inodeOfHandle
  rw [h]
  by_cases ht : t = handle
  · subst ht
    simp
  · simp [Function.update_of_ne ht]

theorem Issuing.step {history : HandleHistory} (h : Issuing s history)
    (hs : HandlesAfter s s' events) : Issuing s' (history ++ events) := by
  match events, hs with
  | [], hs =>
    have hinode : inodeOfHandle s' = inodeOfHandle s := by
      funext t
      rw [inodeOfHandle, hs.handles, inodeOfHandle]
    rw [append_nil]
    exact ⟨hs.next.trans h.next, h.numbered, fun hlen => hinode ▸ h.tracks hlen⟩
  | [.issued handle inode], ⟨hhandle, hnext, file, hs⟩ =>
    have hissues : issues (history ++ [.issued handle inode]) = issues history ++ [handle] :=
      issues_append _ _
    have hlength : (issues history ++ [handle]).length = (issues history).length + 1 := by simp
    have hnumbered : issues history ++ [handle] = firstHandles ((issues history).length + 1) := by
      rw [firstHandles_succ, ← h.numbered, hhandle, h.next]
    constructor
    · rw [hissues, hlength, hnext, hhandle, h.next]
      exact (BitVec.ofNat_add ((issues history).length + 1) 1).symm
    · rw [hissues, hlength]
      exact hnumbered
    · intro hlen
      rw [hissues, hlength] at hlen
      have hnodup := nodup_firstHandles hlen
      rw [← hnumbered] at hnodup
      rw [inodeOfHandle_update hs]
      refine (h.tracks (by omega)).issue (fun hmem => ?_) inode
      exact (nodup_append.mp hnodup).2.2 handle hmem handle (mem_singleton_self _) rfl
  | [.returned handle], ⟨hnext, hs⟩ =>
    have hissues : issues (history ++ [.returned handle]) = issues history := by
      rw [issues_append]
      exact append_nil _
    refine ⟨?_, ?_, fun hlen => ?_⟩ <;> rw [hissues] at *
    · exact hnext.trans h.next
    · exact h.numbered
    · rw [inodeOfHandle_update hs]
      exact (h.tracks hlen).return handle

theorem issuing_start (cfg : Config) (procSelfFd : Fd) (thread : Thread) :
    Issuing ⟨.new cfg procSelfFd, thread⟩ [] := ⟨rfl, rfl, fun _ => tracks_nil⟩

theorem issuing_run {st st' : Served × HandleHistory} {calls : List AnyCall}
    (h : Issuing st.1 st.2) (hc : ∀ q ∈ calls, q.2.isDestroy = false)
    (hrun : Run.run (serve host) st calls = some st') : Issuing st'.1 st'.2 := by
  induction calls generalizing st with
  | nil =>
    cases hrun
    exact h
  | cons q calls ih =>
    obtain ⟨st₁, hstep, hrun⟩ := Option.bind_eq_some_iff.mp hrun
    obtain ⟨⟨r, s₁⟩, hcall, rfl⟩ := Option.map_eq_some_iff.mp hstep
    exact ih (h.step (call_handles (hc q (mem_cons_self ..)) hcall))
      (fun q' hq => hc q' (mem_cons_of_mem _ hq)) hrun

/-! ## Pairs that are accepted -/

/-- The outcome is not the refusal of a pair: `EBADF`, with the file system and its thread as they
were. -/
def Accepts (s : Served) (out : Option (Except IoErr A × Served)) : Prop :=
  out ≠ some (.error (.os .ebadf), s)

def servedOutcome {K : Type} (out : Option (Except IoErr A × Served × K)) :
    Option (Except IoErr A × Served) := out.map fun p => (p.1, p.2.1)

theorem openFileOf_isSome :
    (openFileOf s inode handle).isSome ↔ inodeOfHandle s handle = some inode := by
  unfold openFileOf inodeOfHandle
  cases s.fs.handles handle <;> simp

theorem accepts_of_log (h : s.thread.log.length < s'.thread.log.length) :
    Accepts s (some (r, s')) := by
  rintro ⟨⟩
  exact absurd h (lt_irrefl _)

theorem accepts_transfer {bufs : List VolatileSlice} {requester : Option Context} {ok : Bool}
    (h : bufs.isEmpty = true → ∃ n, r = .ok n) :
    Accepts s (some (r, recordTransfer bufs requester syscall ok s)) := by
  unfold recordTransfer
  split_ifs with hbufs
  · obtain ⟨n, rfl⟩ := h hbufs
    nofun
  · exact accepts_of_log (by simp [Thread.perform])

theorem consume_idle {B : Type} {c : DescriptorChainConsumer} {idle : B}
    {f : List VolatileSlice → B × Except IoError ℕ}
    (h : (takeBuffers count 0 c.buffers).isEmpty = true) :
    (c.consume count idle f).2.1 = .ok 0 := by
  unfold consume
  simp [h]

theorem writeFrom_idle {M : Type} [GuestMemory M] {w : Writer} (m : M) (src : Source)
    (h : (takeBuffers count 0 w.buffer.buffers).isEmpty = true) :
    (w.writeFrom m src count).2.1 = .ok 0 := consume_idle h

theorem readTo_idle {r : Reader} (dst : Sink)
    (h : (takeBuffers count 0 r.buffer.buffers).isEmpty = true) :
    (r.readTo dst count).2.1 = .ok 0 := consume_idle h

theorem accepts_read {M : Type} [GuestMemory M] (hinit : inode ≠ s.fs.initInode) (w : Writer)
    (m : M) (size : U32) (offset : U64) :
    Accepts s (servedOutcome (read host inode handle w size offset (s, m))) ↔
      (openFileOf s inode handle).isSome := by
  unfold read
  simp only [if_neg hinit, getHandle_run]
  cases openFileOf s inode handle with
  | none => simp [Accepts, servedOutcome]
  | some data =>
    refine iff_of_true (accepts_transfer fun hbufs => ⟨0, ?_⟩) rfl
    rw [writeFrom_idle m _ hbufs]
    rfl

theorem write_run
    (hcreds : (when killPriv (withCreds host ctx.uid ctx.gid (pure ())) : Step Unit) s =
      some (.ok (), s₁))
    (inode handle : U64) (r : Reader) (size : U32) (offset : U64) :
    write host ctx inode handle r size offset killPriv s = match openFileOf s₁ inode handle with
      | none => some (.error (.os .ebadf), s₁)
      | some data =>
        let res := (r.readTo (pwritev host offset s₁.thread.log.length) size.toNat).2.1
        let bufs := takeBuffers size.toNat 0 r.buffer.buffers
        some (res.mapError (transferError host offset s₁.thread.log.length),
          recordTransfer bufs (if killPriv then some ctx else none)
            (.pwritev data.file bufs offset) res.isOk s₁) := by
  refine (bind_ok hcreds).trans ?_
  have hget := getHandle_run inode handle s₁
  cases hopen : openFileOf s₁ inode handle <;> rw [hopen] at hget
  · exact bind_error hget
  · exact bind_ok hget

theorem accepts_write
    (hcreds : (when killPriv (withCreds host ctx.uid ctx.gid (pure ())) : Step Unit) s =
      some (.ok (), s₁))
    (inode handle : U64) (r : Reader) (size : U32) (offset : U64) :
    Accepts s₁ (write host ctx inode handle r size offset killPriv s) ↔
      (openFileOf s₁ inode handle).isSome := by
  rw [write_run hcreds]
  cases openFileOf s₁ inode handle with
  | none => simp [Accepts]
  | some data =>
    refine iff_of_true (accepts_transfer fun hbufs => ⟨0, ?_⟩) rfl
    rw [readTo_idle _ hbufs]
    rfl

theorem accepts_release (s : Served) (inode handle : U64) :
    Accepts s (doRelease inode handle s) ↔ (openFileOf s inode handle).isSome := by
  rw [doRelease_run]
  cases openFileOf s inode handle with
  | none => simp [Accepts]
  | some data =>
    refine iff_of_true (fun h => ?_) rfl
    cases h

theorem onFs_sys_log {answer : ℕ → Except Errno A} {p p' : Served × K}
    (h : onFs (sys answer syscall) p = some (r, p')) :
    p'.1.thread.log.length = p.1.thread.log.length + 1 := by
  cases h
  simp [Thread.perform]

theorem leaves_entries (host : Host) (syscall : SysCall) (hquiet : syscall.quiet = true)
    (addEntry : DirEntry → Prog K IoErr ℕ) :
    Leaves (fun p p' : Served × K => LogExtends p.1 p'.1) (do
      let dirents ← onFs (sys host.dirents syscall)
      direntLoop (fun d => onEntries (addEntry d)) dirents) := by
  have hR := tame_logExtends host
  refine leaves_bind (closed_fst hR.toClosed) (leaves_zoom (does_sys hR _ hquiet).leaves
    fun _ _ h => h) fun dirents => leaves_direntLoop (closed_fst hR.toClosed) (fun d => ?_) dirents
  exact leaves_zoom (Q := fun _ _ => True) (fun _ _ _ _ => trivial) fun p _ _ => hR.refl p.1

/-- A directory is read with two calls at least, the first one of which is always made. -/
theorem accepts_readdir (inode handle : U64) {size : U32} (hsize : size ≠ 0) (offset : U64)
    (addEntry : DirEntry → Prog K IoErr ℕ) (k : K) :
    Accepts s (servedOutcome (readdir host inode handle size offset addEntry (s, k))) ↔
      (openFileOf s inode handle).isSome := by
  have hget : (onFs (getHandle inode handle) : Prog (Served × K) IoErr HandleData) (s, k) =
      (getHandle inode handle s).map fun out => (out.1, out.2, k) := rfl
  rw [getHandle_run] at hget
  unfold readdir doReaddir
  rw [if_neg hsize]
  cases hopen : openFileOf s inode handle <;> rw [hopen] at hget
  · rw [bind_error hget]
    simp [Accepts, servedOutcome]
  · refine iff_of_true (fun heq => ?_) rfl
    rw [bind_ok hget] at heq
    obtain ⟨⟨r, s', k'⟩, hrun, ⟨⟩⟩ := Option.map_eq_some_iff.mp heq
    obtain ⟨e, hseek, -⟩ | ⟨_, ⟨s₁, k₁⟩, hseek, hrest⟩ := Prog.bind_cases hrun
    · have := onFs_sys_log hseek
      dsimp only at this
      omega
    · have hgrows := (leaves_entries host _ rfl addEntry _ _ _ hrest).length_le
      have := onFs_sys_log hseek
      dsimp only at this hgrows
      omega

/-! ## After a sequence of calls -/

variable {M : Type} [GuestMemory M]

/-- After every sequence of calls without a `destroy`, in which fewer than 2^64 files are opened, a
handle is accepted for an inode exactly if it was issued for it and has not been returned. No handle
is issued twice, and a release that fails changes nothing. A `readdir` of size 0 and a `write` whose
credentials cannot be set are answered before the pair is looked at. -/
theorem handles_accepted (host : Host) (cfg : Config) (procSelfFd : Fd) (thread : Thread)
    {calls : List AnyCall} {s : Served} {history : HandleHistory}
    (hcalls : ∀ q ∈ calls, q.2.isDestroy = false)
    (hrun : Run.run (serve host) (⟨.new cfg procSelfFd, thread⟩, []) calls = some (s, history))
    (hopens : (issues history).length < 2 ^ 64) :
    (∀ inode handle, inode ≠ s.fs.initInode →
      (∀ (w : Writer) (m : M) size offset,
        Accepts s (servedOutcome (read host inode handle w size offset (s, m))) ↔
          Live history handle inode) ∧
      (∀ (ctx : Context) (r : Reader) size offset (killPriv : Bool) s₁,
        (when killPriv (withCreds host ctx.uid ctx.gid (pure ())) : Step Unit) s =
          some (.ok (), s₁) →
        (Accepts s₁ (write host ctx inode handle r size offset killPriv s) ↔
          Live history handle inode)) ∧
      (∀ (K : Type) (addEntry : DirEntry → Prog K IoErr ℕ) k size offset, size ≠ 0 →
        (Accepts s (servedOutcome (readdir host inode handle size offset addEntry (s, k))) ↔
          Live history handle inode)) ∧
      (Accepts s (doRelease inode handle s) ↔ Live history handle inode)) ∧
    (issues history).Nodup ∧
    (∀ inode handle e s', doRelease inode handle s = some (.error e, s') → s' = s) ∧
    (∀ (K : Type) (addEntry : DirEntry → Prog K IoErr ℕ) k inode handle offset,
      readdir host inode handle 0 offset addEntry (s, k) = some (.ok (), s, k)) ∧
    ∀ (ctx : Context) (r : Reader) inode handle size offset e s₁,
      (withCreds host ctx.uid ctx.gid (pure ()) : Step Unit) s = some (.error e, s₁) →
      write host ctx inode handle r size offset true s = some (.error e, s₁) := by
  have hissuing := issuing_run (issuing_start cfg procSelfFd thread) hcalls hrun
  have hlive (inode handle : U64) :
      (openFileOf s inode handle).isSome ↔ Live history handle inode :=
    openFileOf_isSome.trans (hissuing.tracks hopens handle inode)
  refine ⟨fun inode handle hinit => ⟨fun w m size offset => ?_,
    fun ctx r size offset killPriv s₁ hcreds => ?_, fun K addEntry k size offset hsize => ?_, ?_⟩,
    hissuing.numbered ▸ nodup_firstHandles hopens, fun inode handle e s' h => ?_,
    fun K addEntry k inode handle offset => rfl,
    fun ctx r inode handle size offset e s₁ hcreds => bind_error hcreds⟩
  · exact (accepts_read hinit w m size offset).trans (hlive inode handle)
  · -- the guards leave the table alone
    have hfs : s₁.fs = s.fs := (does_when sameFs.toClosed fun _ =>
      does_withCreds sameFs _ _ (does_pure sameFs.toClosed ())).run hcreds
    have hopen : openFileOf s₁ inode handle = openFileOf s inode handle := by
      rw [openFileOf, hfs, openFileOf]
    rw [accepts_write hcreds, hopen]
    exact hlive inode handle
  · exact (accepts_readdir inode handle hsize offset addEntry k).trans (hlive inode handle)
  · exact (accepts_release s inode handle).trans (hlive inode handle)
  · rw [doRelease_run] at h
    split at h <;> cases h
    rfl

def openTwice : List AnyCall :=
  [⟨_, .init 0⟩, ⟨_, .opendir ⟨0, 0, 1⟩ 1 0⟩, ⟨_, .opendir ⟨0, 0, 1⟩ 1 0⟩,
    ⟨_, .releasedir ⟨0, 0, 1⟩ 1 0 1⟩]

/-- The second handle is accepted and the first is not any more. -/
theorem handles_accepted_openTwice :
    ∃ s, Run.run (serve calmHost) (⟨.new smallConfig 3, ⟨0, 0, []⟩⟩, []) openTwice =
        some (s, [.issued 1 1, .issued 2 1, .returned 1]) ∧
      Accepts s (doRelease 1 2 s) ∧ ¬ Accepts s (doRelease 1 1 s) := by
  obtain ⟨⟨s, history⟩, hrun, hview⟩ := Option.map_eq_some_iff.mp (show
    (Run.run (serve calmHost) (⟨.new smallConfig 3, ⟨0, 0, []⟩⟩, []) openTwice).map
      (fun st => (st.2, st.1.fs.initInode)) =
        some (([.issued 1 1, .issued 2 1, .returned 1] : HandleHistory), 2) by decide +kernel)
  obtain ⟨rfl, hinit⟩ := Prod.mk.inj hview
  have hcalls : ∀ q ∈ openTwice, q.2.isDestroy = false := by simp [openTwice, FsCall.isDestroy]
  have haccepted (handle : U64) := ((handles_accepted (M := FlatMemory) calmHost smallConfig 3
    ⟨0, 0, []⟩ hcalls hrun (by decide)).1 1 handle (by rw [hinit]; decide)).2.2.2
  refine ⟨s, hrun, (haccepted 2).mpr ⟨[.issued 1 1], [.returned 1], rfl, by decide⟩, fun h => ?_⟩
  have hlive : Live ([.issued 1 1, .issued 2 1] ++ [.returned 1] : HandleHistory) 1 1 :=
    (haccepted 1).mp h
  obtain he | ⟨hne, -⟩ := live_snoc.mp hlive
  · cases he
  · exact hne rfl

/-- A directory that was never opened is read, for no entries, and a write to it fails with the
error of the credentials. -/
theorem unopened_answered :
    ∃ s, Run.run (serve calmHost) (⟨.new smallConfig 3, ⟨0, 0, []⟩⟩, []) [] = some (s, []) ∧
      ¬ Live ([] : HandleHistory) 9 5 ∧
      readdir calmHost 5 9 0 0 (fun _ => pure 1) (s, ()) = some (.ok (), s, ()) ∧
      ∃ s', write { calmHost with unit := fun _ => .error 1 } ⟨1000, 1000, 1⟩ 5 9 ⟨⟨[], 0⟩⟩ 0 0 true
        s = some (.error (.os 1), s') :=
  ⟨_, rfl, not_live_nil 9 5, rfl, _, rfl⟩

end Passthrough

end Shelter.Fs
