import Shelter.Fs.Server

/-!
# What a handler asks of the file system

A handler decodes its message, which changes nothing, and then makes one call of the file system,
whose result it answers with. `Serving` says that, and `handler_serving` proves it of all handlers
and says which calls they make. Beside the file system, only `INIT` changes the options, and only
`FORGET` and `BATCH_FORGET` count for the lookup counts before a reply is written.

A handler can panic by itself only while it looks for extensions, which it does if the guest and the
server have agreed on them.
-/

open Bytes

namespace Shelter.Fs

open Virtio Prog List Option

def FsCall.context {A : Type} : FsCall A → Option Context
  | .lookup ctx .. | .forget ctx .. | .batchForget ctx .. | .getattr ctx .. | .setattr ctx ..
  | .readlink ctx .. | .symlink ctx .. | .mknod ctx .. | .mkdir ctx .. | .unlink ctx ..
  | .rmdir ctx .. | .rename ctx .. | .link ctx .. | .open ctx .. | .create ctx .. | .write ctx ..
  | .statfs ctx .. | .release ctx .. | .fsync ctx .. | .setxattr ctx .. | .getxattr ctx ..
  | .listxattr ctx .. | .removexattr ctx .. | .flush ctx .. | .opendir ctx ..
  | .releasedir ctx .. | .fsyncdir ctx .. | .access ctx .. | .ioctl ctx .. | .fallocate ctx ..
  | .lseek ctx .. | .copyfilerange ctx .. | .setupmapping ctx .. | .removemapping ctx .. => some ctx
  | .init _ | .destroy | .getlk | .setlk | .setlkw | .bmap | .poll | .notifyReply => none

def FsCall.entries {A : Type} : FsCall A → A → List U64
  | .lookup .., e | .symlink .., e | .mknod .., e | .mkdir .., e | .link .., e => [e.inode]
  | .create .., out => [out.1.inode]
  | _, _ => []

def FsCall.secctx {A : Type} : FsCall A → Option SecContext
  | .symlink _ _ _ _ extensions | .mknod _ _ _ _ _ _ extensions | .mkdir _ _ _ _ _ extensions
  | .create _ _ _ _ _ _ extensions => extensions.secctx
  | _ => none

/-- The number of bytes that the result of a call adds to the reply, beside its fixed part. -/
def FsCall.payload {A : Type} : FsCall A → A → ℕ
  | .readlink .., bs | .ioctl .., bs => bs.length
  | .getxattr .., .value bs | .listxattr .., .value bs => bs.length
  | .create .., _ => 16
  | _, _ => 0

def FsCall.Fits {A : Type} : FsCall A → Prop
  | .getxattr _ _ _ size | .listxattr _ _ size => ¬ maxBufferSize < size
  | _ => True

def Answer.entries : Answer → List U64
  | .ok out _ => (out.map Out.entries).getD []
  | _ => []

def Answer.data : Answer → List Byte
  | .ok _ data => data.getD []
  | _ => []

def FsCall.forgets {A : Type} : FsCall A → List Action
  | .forget _ inode count => [.forgot inode count]
  | .batchForget _ requests => requests.map fun q => .forgot q.1 q.2
  | _ => []

/-- The options after a call: `INIT` agrees on them. -/
def FsCall.options {A : Type} : FsCall A → Except IoErr A → U64 → U64
  | .init capable, .ok want, _ => capable &&& (want ||| Server.supported)
  | _, _, options => options

def FsCall.lifecycle {A : Type} : FsCall A → Option Opcode
  | .init _ => some .init
  | .destroy => some .destroy
  | _ => none

def FsCall.ordinary {A : Type} : FsCall A → Bool
  | .init _ | .destroy | .forget .. | .batchForget .. => false
  | _ => true

variable {A : Type}

theorem FsCall.forgets_of_ordinary {c : FsCall A} (h : c.ordinary = true) : c.forgets = [] := by
  cases c <;> first | rfl | cases h

theorem FsCall.options_of_ordinary {c : FsCall A} (h : c.ordinary = true) (r : Except IoErr A)
    (options : U64) : c.options r options = options := by
  cases c <;> first | rfl | cases h

theorem FsCall.lifecycle_of_ordinary {c : FsCall A} (h : c.ordinary = true) :
    c.lifecycle = none := by
  cases c <;> first | rfl | cases h

/-- The call that a handler ends in, and what it answers to the result. -/
structure Request where
  A : Type
  call : FsCall A
  answer : Except IoErr A → Answer

namespace Server

variable {M F A B : Type} (options : U64)

def NoExtensions : Prop :=
  FsOptions.has options FsOptions.securityCtx = false ∧
    FsOptions.has options FsOptions.createSuppGroup = false
  deriving Decidable

/-- A request in the name of the header's user, answered with what it returns. -/
structure Serves (h : InHeader) (op : Opcode) (options : U64) (q : Request) : Prop where
  lifecycle : ∀ o ∈ q.call.lifecycle, o = op
  context : q.call.context = some h.context ∨ q.call.context = none
  secctx : NoExtensions options → q.call.secctx = none
  entries : ∀ a, (q.answer (.ok a)).entries = q.call.entries a
  payload : ∀ a, (q.answer (.ok a)).data.length = q.call.payload a
  failed : ∀ e, (q.answer (.error e)).entries = [] ∧ (q.answer (.error e)).data = []
  fits : q.call.Fits

/-- A result without a call: an error, or an answer about no inode. -/
def Unserved (r : Except FsError Answer) : Prop := ∀ a, r = .ok a → a.entries = [] ∧ a.data = []

/-- From `s` on, the handler leaves the state alone or makes one call, a request in `P`; or it
panics over an extension. -/
def Serving (fs : FileSystem M F) (P : Request → Prop) (s : ServerState M F)
    (x : Step M F Answer) : Prop :=
  (∃ r, x s = some (r, s) ∧ Unserved r) ∨
  (∃ q : Request, P q ∧ x s = (fs.call q.call s.fs).map fun out =>
    (.ok (q.answer out.1), { s with
      fs := out.2
      options := q.call.options out.1 s.options
      actions := s.actions ++ q.call.forgets })) ∨
  (x s = none ∧ ¬ NoExtensions s.options)

def Reads (x : Step M F A) : Prop := ∀ s, ∃ r, x s = some (r, s)

def Peeks (x : Step M F A) : Prop := ∀ s, x s = none ∨ ∃ r, x s = some (r, s)

/-! ## The rules -/

section Rules

theorem reads_pure (a : A) : Reads (pure a : Step M F A) := fun _ => ⟨_, rfl⟩

theorem reads_fail (e : FsError) : Reads (fail e : Step M F A) := fun _ => ⟨_, rfl⟩

variable {x y : Step M F A} {reply : A → Answer} {f : A → Step M F Answer}

theorem reads_ite {c : Prop} [Decidable c] (hx : Reads x) (hy : Reads y) :
    Reads (if c then x else y) := by
  split
  · exact hx
  · exact hy

theorem reads_bind {f : A → Step M F B} (hx : Reads x) (hf : ∀ a, Reads (f a)) :
    Reads (x >>= f) := by
  intro s
  obtain ⟨e | a, hrun⟩ := hx s
  · exact ⟨_, bind_error hrun⟩
  · obtain ⟨r, hrun'⟩ := hf a s
    exact ⟨r, (bind_ok hrun).trans hrun'⟩

theorem Reads.peeks (h : Reads x) : Peeks x := fun s => .inr (h s)

theorem peeks_ite {c : Prop} [Decidable c] (hx : Peeks x) (hy : Peeks y) :
    Peeks (if c then x else y) := by
  split
  · exact hx
  · exact hy

theorem peeks_bind {f : A → Step M F B} (hx : Peeks x) (hf : ∀ a, Peeks (f a)) :
    Peeks (x >>= f) := by
  intro s
  obtain hrun | ⟨e | a, hrun⟩ := hx s
  · exact .inl (bind_none hrun)
  · exact .inr ⟨_, bind_error hrun⟩
  · rw [bind_ok hrun]
    exact hf a s

variable {fs : FileSystem M F} {P : Request → Prop} {s : ServerState M F}

theorem callFs_run (fs : FileSystem M F) (c : FsCall A) (s : ServerState M F) :
    callFs fs c s = (fs.call c s.fs).map fun out => (.ok out.1, { s with fs := out.2 }) := rfl

theorem serving_answer {c : FsCall A} (hc : c.ordinary = true)
    (h : P ⟨A, c, fun r => match r with | .ok a => reply a | .error e => .err e⟩) :
    Serving fs P s (answer fs c reply) := by
  refine .inr (.inl ⟨_, h, ?_⟩)
  have hcall := callFs_run fs c s
  simp only [FsCall.forgets_of_ordinary hc, FsCall.options_of_ordinary hc, append_nil]
  rcases hrun : fs.call c s.fs with _ | ⟨e | a, f⟩ <;> rw [hrun] at hcall
  · exact bind_none hcall
  · exact bind_ok hcall
  · exact bind_ok hcall

theorem serving_call {h : InHeader} {op : Opcode} {c : FsCall A}
    (hx : NoExtensions s.options → c.secctx = none := by exact fun _ => rfl)
    (hc : c.context = some h.context ∨ c.context = none := by exact .inl rfl)
    (ho : c.ordinary = true := by rfl)
    (he : ∀ a, (reply a).entries = c.entries a := by rintro ⟨⟩ <;> rfl)
    (hp : ∀ a, (reply a).data.length = c.payload a := by rintro ⟨⟩ <;> rfl)
    (f : c.Fits := by trivial) :
    Serving fs (Serves h op s.options) s (answer fs c reply) :=
  serving_answer ho ⟨by simp [FsCall.lifecycle_of_ordinary ho], hc, hx, he, hp,
    fun _ => ⟨rfl, rfl⟩, f⟩

theorem Serving.mono {P' : Request → Prop} {x : Step M F Answer} (h : Serving fs P s x)
    (hP : ∀ q, P q → P' q) : Serving fs P' s x :=
  h.imp_right (Or.imp_left fun ⟨q, hq, hx⟩ => ⟨q, hP q hq, hx⟩)

theorem serving_err (e : IoErr) : Serving fs P s (pure (.err e)) :=
  .inl ⟨_, rfl, by rintro _ ⟨⟩; exact ⟨rfl, rfl⟩⟩

theorem serving_silent : Serving fs P s (pure .silent) :=
  .inl ⟨_, rfl, by rintro _ ⟨⟩; exact ⟨rfl, rfl⟩⟩

theorem serving_fail (e : FsError) : Serving fs P s (fail e) := .inl ⟨_, rfl, by rintro _ ⟨⟩⟩

theorem serving_ite {c : Prop} [Decidable c] {x y : Step M F Answer} (hx : c → Serving fs P s x)
    (hy : ¬ c → Serving fs P s y) : Serving fs P s (if c then x else y) := by
  split_ifs with h
  · exact hx h
  · exact hy h

theorem serving_bind (hx : Reads x) (hf : ∀ a, Serving fs P s (f a)) :
    Serving fs P s (x >>= f) := by
  obtain ⟨e | a, hrun⟩ := hx s
  · exact .inl ⟨_, bind_error hrun, by rintro _ ⟨⟩⟩
  · unfold Serving
    rw [bind_ok hrun]
    exact hf a

theorem serving_peek (hx : Peeks x) (hs : ¬ NoExtensions s.options)
    (hf : ∀ a, Serving fs P s (f a)) : Serving fs P s (x >>= f) := by
  obtain hrun | ⟨e | a, hrun⟩ := hx s
  · exact .inr (.inr ⟨bind_none hrun, hs⟩)
  · exact .inl ⟨_, bind_error hrun, by rintro _ ⟨⟩⟩
  · unfold Serving
    rw [bind_ok hrun]
    exact hf a

theorem serving_get {f : ServerState M F → Step M F Answer} (hf : Serving fs P s (f s)) :
    Serving fs P s (get >>= f) := hf

theorem serving_pure {a : A} (hf : Serving fs P s (f a)) : Serving fs P s (pure a >>= f) := hf

end Rules

/-! ## Decoding -/

section Decoding

theorem reads_remaining (h : InHeader) (n : ℕ) : Reads (remaining h n : Step M F ℕ) :=
  reads_ite (reads_pure _) (reads_fail _)

variable (buf : List Byte)

theorem reads_bytesToCstr : Reads (bytesToCstr buf : Step M F CStr) :=
  reads_ite (reads_pure _) (reads_fail _)

theorem reads_component : Reads (component buf : Step M F _) :=
  reads_ite (reads_fail _) (reads_pure _)

theorem reads_splitAtNul : Reads (splitAtNul buf : Step M F _) :=
  reads_ite (reads_pure _) (reads_fail _)

theorem getExtensions_none {options : U64} (h : NoExtensions options) (skip : ℕ)
    (buf : List Byte) : (getExtensions options skip buf : Step M F _) = pure ⟨none⟩ := if_pos h

theorem reads_takeObject (n : ℕ) (data : List Byte) : Reads (takeObject n data : Step M F _) :=
  reads_ite (reads_fail _) (reads_pure _)

theorem reads_parseSecurityContext (nrSecctx : U32) (data : List Byte) :
    Reads (parseSecurityContext nrSecctx data : Step M F _) := by
  refine reads_ite (reads_fail _) (reads_ite (reads_pure _) ?_)
  refine reads_bind (reads_takeObject 8 data) fun _ => reads_ite (reads_fail _) ?_
  refine reads_bind (reads_component _) fun _ => reads_ite (reads_fail _) ?_
  exact reads_ite (reads_fail _) (reads_pure _)

theorem peeks_extensionsLoop (turns : ℕ) (buf : List Byte) (found : Option SecContext × Bool) :
    Peeks (extensionsLoop options turns buf found : Step M F _) := by
  induction turns generalizing buf found with
  | zero => exact (reads_pure _).peeks
  | succ turns ih =>
    refine peeks_ite (reads_pure _).peeks ?_
    refine peeks_bind (reads_takeObject 8 buf).peeks fun _ => ?_
    refine peeks_ite (reads_fail _).peeks (peeks_ite (fun _ => .inl rfl) (peeks_ite ?_ ?_))
    · refine peeks_ite (reads_fail _).peeks ?_
      exact peeks_bind (reads_parseSecurityContext _ _).peeks fun _ => ih _ _
    · exact peeks_ite (fun _ => .inl rfl) (reads_fail _).peeks

theorem peeks_getExtensions (skip : ℕ) (buf : List Byte) :
    Peeks (getExtensions options skip buf : Step M F _) := by
  refine peeks_ite (reads_pure _).peeks (peeks_ite (reads_fail _).peeks ?_)
  refine peeks_bind (peeks_extensionsLoop _ _ _ _) fun _ => ?_
  exact peeks_ite (reads_fail _).peeks (reads_pure _).peeks

theorem serving_extensions {fs : FileSystem M F} {P : Request → Prop} {s : ServerState M F}
    (skip : ℕ) (buf : List Byte) {f : Extensions → Step M F Answer}
    (hf : ∀ ext, (NoExtensions s.options → ext.secctx = none) → Serving fs P s (f ext)) :
    Serving fs P s (getExtensions s.options skip buf >>= f) := by
  by_cases hs : NoExtensions s.options
  · rw [getExtensions_none hs]
    exact serving_pure (hf _ fun _ => rfl)
  · exact serving_peek (peeks_getExtensions _ _ _) hs fun ext => hf ext fun h => absurd h hs

variable [GuestMemory M]

theorem reads_readObj (r : Reader) (n : ℕ) : Reads (readObj r n : Step M F _) := by
  intro s
  unfold readObj
  rcases r.readObj s.mem n with ⟨e, err | _, r'⟩ <;> exact ⟨_, rfl⟩

theorem reads_readObjs (size n : ℕ) (r : Reader) : Reads (readObjs size n r : Step M F _) := by
  induction n generalizing r with
  | zero => exact reads_pure _
  | succ n ih =>
    exact reads_bind (reads_readObj r size) fun obj =>
      reads_bind (ih obj.2) fun _ => reads_pure _

end Decoding

/-! ## The handlers -/

section Handlers

variable {fs : FileSystem M F} {h : InHeader} {op : Opcode} {r : Reader} {s : ServerState M F}
  {P : Request → Prop}

theorem serving_forget {c : FsCall Unit} (hl : c.lifecycle = none) (hc : c.context = some h.context)
    (hx : c.secctx = none) (he : c.entries () = []) (hp : c.payload () = 0)
    (ho : ∀ r options, c.options r options = options) (hf : c.Fits) :
    Serving fs (Serves h op s.options) s (do
      let _ ← callFs fs c
      record c.forgets
      pure .silent) := by
  refine .inr (.inl ⟨⟨Unit, c, fun _ => .silent⟩,
    ⟨by simp [hl], .inl hc, fun _ => hx, fun _ => he.symm, fun _ => hp.symm,
      fun _ => ⟨rfl, rfl⟩, hf⟩, ?_⟩)
  have hcall := callFs_run fs c s
  rcases hrun : fs.call c s.fs with _ | ⟨res, f⟩ <;> rw [hrun] at hcall
  · exact bind_none hcall
  · rw [bind_ok hcall]
    simp only [map_some, ho]
    rfl

theorem serving_enable (maxReadahead : U32) (capable : U64) :
    Serving fs (Serves h .init s.options) s (enable fs maxReadahead capable) := by
  refine .inr (.inl ⟨⟨U64, .init capable, fun res => match res with
    | .ok want => .ok (some (initOut maxReadahead (capable &&& (want ||| supported)))) none
    | .error e => .err e⟩,
    ⟨by rintro _ ⟨⟩; rfl, .inr rfl, fun _ => rfl, fun _ => rfl, fun _ => rfl,
      fun _ => ⟨rfl, rfl⟩, trivial⟩, ?_⟩)
  have hcall := callFs_run fs (.init capable) s
  unfold enable
  rcases hrun : fs.call (.init capable) s.fs with _ | ⟨e | want, f⟩ <;> rw [hrun] at hcall
  · exact bind_none hcall
  · rw [bind_ok hcall]
    simp [FsCall.forgets, FsCall.options]
  · rw [bind_ok hcall]
    simp [FsCall.forgets, FsCall.options, bind_ok (modify_run _ _)]

theorem serving_destroy : Serving fs (Serves h .destroy s.options) s (destroy fs) := by
  refine .inr (.inl ⟨⟨Unit, .destroy, fun _ => .silent⟩,
    ⟨by rintro _ ⟨⟩; rfl, .inr rfl, fun _ => rfl, fun _ => rfl, fun _ => rfl,
      fun _ => ⟨rfl, rfl⟩, trivial⟩, ?_⟩)
  have hcall := callFs_run fs .destroy s
  rcases hrun : fs.call .destroy s.fs with _ | ⟨res, f⟩ <;> rw [hrun] at hcall
  · exact bind_none hcall
  · unfold destroy
    rw [bind_ok hcall]
    simp [FsCall.forgets, FsCall.options]

variable [GuestMemory M]

theorem serving_obj (n : ℕ) {f : List Byte × Reader → Step M F Answer}
    (hf : ∀ obj, Serving fs P s (f obj)) : Serving fs P s (readObj r n >>= f) :=
  serving_bind (reads_readObj r n) hf

theorem serving_name (n : ℕ) {f : CStr → Step M F Answer}
    (hf : ∀ name, Serving fs P s (f name)) :
    Serving fs P s (do
      let namelen ← remaining h n
      let (buf, _) ← readObj r namelen
      let name ← bytesToCstr buf
      f name) :=
  serving_bind (reads_remaining h n) fun _ => serving_bind (reads_readObj r _) fun _ =>
    serving_bind (reads_bytesToCstr _) hf

theorem serving_create (n : ℕ) {f : Extensions → CStr → Step M F Answer}
    (hf : ∀ ext name, (NoExtensions s.options → ext.secctx = none) → Serving fs P s (f ext name)) :
    Serving fs P s (do
      let len ← remaining h n
      let (buf, _) ← readObj r len
      let (name, _) ← component buf
      let s ← get
      let extensions ← getExtensions s.options name.length buf
      let name ← bytesToCstr name
      f extensions name) :=
  serving_bind (reads_remaining h n) fun _ => serving_bind (reads_readObj r _) fun _ =>
    serving_bind (reads_component _) fun _ => serving_get <|
      serving_extensions _ _ fun ext hext =>
        serving_bind (reads_bytesToCstr _) fun name => hf ext name hext

theorem serving_symlink : Serving fs (Serves h op s.options) s (symlink fs h r) :=
  serving_bind (reads_remaining h 0) fun _ => serving_bind (reads_readObj r _) fun _ =>
    serving_bind (reads_component _) fun _ => serving_bind (reads_component _) fun _ =>
      serving_get <| serving_extensions _ _ fun _ hext =>
        serving_bind (reads_bytesToCstr _) fun _ => serving_bind (reads_bytesToCstr _) fun _ =>
          serving_call hext

theorem serving_doRename (msgSize : ℕ) (newdir : U64) (flags : U32) :
    Serving fs (Serves h op s.options) s (doRename fs h r msgSize newdir flags) :=
  serving_bind (reads_remaining h msgSize) fun _ => serving_bind (reads_readObj r _) fun _ =>
    serving_bind (reads_splitAtNul _) fun _ => serving_bind (reads_bytesToCstr _) fun _ =>
      serving_bind (reads_bytesToCstr _) fun _ => serving_call

theorem serving_init : Serving fs (Serves h .init s.options) s (init fs r) := by
  refine serving_obj 16 fun _ => serving_bind ?_ fun ext => ?_
  · exact reads_ite (reads_readObj _ 48) (reads_pure _)
  refine serving_ite (fun _ => serving_err _) fun _ => serving_ite (fun _ => ?_) fun _ =>
    serving_ite (fun _ => serving_err _) fun _ => serving_enable _ _
  exact .inl ⟨_, rfl, by rintro _ ⟨⟩; exact ⟨rfl, rfl⟩⟩

theorem handler_serving (fs : FileSystem M F) (shm : Option VirtioShmRegion) (h : InHeader)
    (r : Reader) (s : ServerState M F) (op : Opcode) :
    Serving fs (Serves h op s.options) s (handler fs shm h r op) := by
  cases op with
  | lookup | unlink | rmdir | removexattr =>
    exact serving_name 0 fun _ => serving_call
  | link =>
    exact serving_obj 8 fun _ => serving_name 8 fun _ => serving_call
  | getattr | setattr | «open» | release | fsync | flush | opendir | releasedir | fsyncdir | access
  | ioctl | fallocate | lseek | copyFileRange =>
    exact serving_obj _ fun _ => serving_call
  | readlink | statfs => exact serving_call
  | getlk | setlk | setlkw | bmap | poll | notifyReply =>
    exact serving_call (fun _ => rfl) (.inr rfl)
  | symlink => exact serving_symlink
  | mknod | mkdir | create =>
    exact serving_obj _ fun _ => serving_create _ fun _ _ hext => serving_call hext
  | rename | rename2 => exact serving_obj _ fun _ => serving_doRename _ _ _
  | write =>
    exact serving_obj 40 fun _ => serving_ite (fun _ => serving_err _) fun _ => serving_call
  | setxattr =>
    refine serving_obj 8 fun _ => serving_bind (reads_remaining h 8) fun _ =>
      serving_obj _ fun _ => serving_bind (reads_splitAtNul _) fun _ => ?_
    exact serving_ite (fun _ => serving_fail _) fun _ => serving_bind (reads_bytesToCstr _) fun _ =>
      serving_call
  | getxattr =>
    refine serving_obj 8 fun _ => serving_bind (reads_remaining h 8) fun _ =>
      serving_obj _ fun _ => serving_ite (fun _ => serving_err _) fun hsize => ?_
    exact serving_bind (reads_bytesToCstr _) fun _ => serving_call (f := hsize)
  | listxattr =>
    exact serving_obj 8 fun _ => serving_ite (fun _ => serving_err _) fun hsize =>
      serving_call (f := hsize)
  | setupMapping =>
    cases shm with
    | none => exact serving_err _
    | some shm => exact serving_obj 40 fun _ => serving_call
  | removeMapping =>
    cases shm with
    | none => exact serving_err _
    | some shm =>
      exact serving_obj 4 fun _ => serving_ite (fun _ => serving_err _) fun _ =>
        serving_bind (reads_readObjs 16 _ _) fun _ => serving_call
  | forget =>
    exact serving_obj 8 fun _ => serving_forget rfl rfl rfl rfl rfl (fun _ _ => rfl) trivial
  | batchForget =>
    exact serving_obj 8 fun _ => serving_ite (fun _ => serving_err _) fun _ =>
      serving_bind (reads_readObjs 16 _ _) fun _ =>
        serving_forget rfl rfl rfl rfl rfl (fun _ _ => rfl) trivial
  | destroy => exact serving_destroy
  | init => exact serving_init
  | interrupt => exact serving_silent
  | read | readdir | readdirplus => exact serving_err _

end Handlers

/-! ## What a message does -/

section Handled

/-- The program writes memory only, and fails only because it cannot. -/
def Writes (x : Step M F A) : Prop := ∀ s r s', x s = some (r, s') →
  (∃ m, s' = { s with mem := m }) ∧ ∀ e, r = .error e → e = .encodeMessage

theorem writes_pure (a : A) : Writes (pure a : Step M F A) := by
  rintro s r s' ⟨⟩
  exact ⟨⟨s.mem, rfl⟩, nofun⟩

variable {x : Step M F A} {f : A → Step M F B} {shm : Option VirtioShmRegion} {w : Writer}
  {s s' : ServerState M F}

theorem writes_bind (hx : Writes x) (hf : ∀ a, Writes (f a)) : Writes (x >>= f) := by
  intro s r s' h
  obtain ⟨e, h₁, rfl⟩ | ⟨a, s₁, h₁, h⟩ := bind_cases h
  · obtain ⟨hmem, he⟩ := hx s _ s' h₁
    exact ⟨hmem, fun e' he' => by cases he'; exact he e rfl⟩
  · obtain ⟨⟨m, rfl⟩, -⟩ := hx s _ s₁ h₁
    obtain ⟨⟨m', rfl⟩, he⟩ := hf a _ r s' h
    exact ⟨⟨m', rfl⟩, he⟩

theorem Reads.bind_cases {r : Except FsError B} (hx : Reads x) (h : (x >>= f) s = some (r, s')) :
    s' = s ∨ ∃ a, x s = some (.ok a, s) ∧ f a s = some (r, s') := by
  obtain ⟨res, hrun⟩ := hx s
  obtain ⟨e, h₁, -⟩ | ⟨a, s₁, h₁, h⟩ := Prog.bind_cases h <;> cases hrun.symm.trans h₁
  · exact .inl rfl
  · exact .inr ⟨a, hrun, h⟩

theorem splitHeader_cases {f : Writer × Writer → Step M F A} {r : Except FsError A}
    (h : (splitHeader w >>= f) s = some (r, s')) :
    ∃ ws, w.splitAt OutHeader.size = .ok ws ∧ f ws s = some (r, s') := by
  unfold splitHeader at h
  rcases hw : w.splitAt OutHeader.size with e | ws <;> rw [hw] at h
  · cases h
  · exact ⟨ws, rfl, h⟩

variable [GuestMemory M]

theorem writes_writeAll (w : Writer) (bs : List Byte) :
    Writes (writeAll w bs : Step M F Writer) := by
  intro s r s' h
  unfold writeAll at h
  rcases hw : w.writeAll s.mem bs with ⟨e, k | _, w'⟩ <;> rw [hw] at h <;> cases h
  · exact ⟨⟨e.mem, rfl⟩, by rintro _ ⟨⟩; rfl⟩
  · exact ⟨⟨e.mem, rfl⟩, nofun⟩

theorem writes_replyError (e : IoErr) (unique : U64) (w : Writer) :
    Writes (replyError e unique w : Step M F ℕ) :=
  writes_bind (writes_writeAll w _) fun _ => writes_pure _

theorem writes_replyOk (out : Option Out) (data : Option (List Byte)) (unique : U64) (w : Writer) :
    Writes (replyOk out data unique w : Step M F ℕ) :=
  writes_bind (writes_writeAll w _) fun _ => writes_bind (writes_writeAll _ _) fun _ =>
    writes_bind (writes_writeAll _ _) fun _ => writes_pure _

theorem writes_finish (count : ℕ) (unique : U64) (w : Writer) :
    Writes (finish count unique w : Step M F ℕ) :=
  writes_bind (writes_writeAll w _) fun _ => writes_pure _

/-- The inodes that a reply tells the guest about: all of them, unless it could not be written. -/
def Told (entries : List U64) (res : Except FsError ℕ) (told : List U64) : Prop :=
  told = entries ∨ told = [] ∧ res = .error .encodeMessage

theorem respond_told {unique : U64} {a : Answer}
    {res : Except FsError ℕ} (h : respond unique w a s = some (res, s')) :
    ∃ m told, Told a.entries res told ∧
      s' = { s with mem := m, actions := s.actions ++ told.map .reported } := by
  cases a with
  | silent =>
    cases h
    exact ⟨s.mem, [], .inl rfl, by simp⟩
  | err e =>
    obtain ⟨⟨m, rfl⟩, -⟩ := writes_replyError e unique w s _ _ h
    exact ⟨m, [], .inl rfl, by simp⟩
  | ok out data =>
    obtain ⟨e, hok, rfl⟩ | ⟨n, s₁, hok, h⟩ := bind_cases h
    · obtain ⟨⟨m, rfl⟩, he⟩ := writes_replyOk out data unique w s _ _ hok
      exact ⟨m, [], .inr ⟨rfl, by rw [he e rfl]⟩, by simp⟩
    · obtain ⟨⟨m, rfl⟩, -⟩ := writes_replyOk out data unique w s _ _ hok
      cases h
      exact ⟨m, _, .inl rfl, rfl⟩

def headerOf (r : Reader) (m : M) : InHeader := .ofBytes (r.readObj m InHeader.size).1.data

/-- The function that `READDIR` and `READDIRPLUS` call. -/
def listing (fs : FileSystem M F) (h : InHeader) (readIn : TransferIn) (plus : Bool) :
    Prog (F × Cursor M) IoErr Unit :=
  if plus then fs.readdirplus h.context h.nodeid readIn.fh readIn.size readIn.offset
    fun d e => addDirent readIn.size d (some e)
  else fs.readdir h.context h.nodeid readIn.fh readIn.size readIn.offset
    fun d => addDirent readIn.size d none

/-- What the handling of a message does to the server, whatever it writes to memory: nothing, a
call of the file system whose result the guest is told, a read, or a listing. -/
inductive Handled (fs : FileSystem M F) (s : ServerState M F) (h : InHeader) :
    Except FsError ℕ → ServerState M F → Prop
  | nothing (res : Except FsError ℕ) (m : M) : Handled fs s h res { s with mem := m }
  | call {res : Except FsError ℕ} {op : Opcode} {q : Request} {out : Except IoErr q.A} {f : F}
      {told : List U64} (m : M) (opcode : Opcode.ofU32 h.opcode = some op)
      (serves : Serves h op s.options q) (run : fs.call q.call s.fs = some (out, f))
      (reported : Told (q.answer out).entries res told) :
      Handled fs s h res ⟨f, q.call.options out s.options, m,
        s.actions ++ q.call.forgets ++ told.map .reported⟩
  | read {w : Writer} {readIn : TransferIn} {owner : Option U64} {out : Except IoErr ℕ} {f : F}
      {m' : M} (res : Except FsError ℕ) (m : M)
      (run : fs.read h.context h.nodeid readIn.fh w readIn.size readIn.offset owner readIn.flags
        (s.fs, s.mem) = some (out, f, m')) : Handled fs s h res { s with fs := f, mem := m }
  | listing {res : Except FsError ℕ} {w : Writer} {readIn : TransferIn} {plus : Bool}
      {out : Except IoErr Unit} {f : F} {cursor : Cursor M} {told : List U64} (m : M)
      (opcode : Opcode.ofU32 h.opcode = some (if plus then .readdirplus else .readdir))
      (run : listing fs h readIn plus (s.fs, ⟨w, s.mem, []⟩) = some (out, f, cursor))
      (reported : told = cursor.listed ∨ told = []) :
      Handled fs s h res
        ⟨f, s.options, m, s.actions ++ told.map .reported⟩

variable {fs : FileSystem M F} {h : InHeader} {r : Reader} {res : Except FsError ℕ}

theorem Handled.same (hs : ∃ m, s' = { s with mem := m }) : Handled fs s h res s' := by
  obtain ⟨m, rfl⟩ := hs
  exact .nothing res m

theorem read_handled (hrun : read fs h r w s = some (res, s')) : Handled fs s h res s' := by
  obtain rfl | ⟨obj, -, hrun⟩ := (reads_readObj r 40).bind_cases hrun
  · exact .nothing res s'.mem
  dsimp only at hrun
  split at hrun
  · exact .same (writes_replyError _ _ w s _ _ hrun).1
  obtain ⟨⟨w₁, w₂⟩, -, hrun⟩ := splitHeader_cases hrun
  obtain ⟨e, h₁, -⟩ | ⟨out, s₁, h₁, hrun⟩ := Prog.bind_cases hrun <;>
    obtain ⟨⟨out', f, m'⟩, hread, hout⟩ := map_eq_some_iff.mp h₁ <;> cases hout
  cases out' with
  | ok count =>
    obtain ⟨⟨m, rfl⟩, -⟩ := writes_finish count h.unique w₁ _ _ _ hrun
    exact .read res m hread
  | error e =>
    obtain ⟨⟨m, rfl⟩, -⟩ := writes_replyError e h.unique w₁ _ _ _ hrun
    exact .read res m hread

theorem doReaddir_handled (plus : Bool)
    (hop : Opcode.ofU32 h.opcode = some (if plus then .readdirplus else .readdir))
    (hrun : doReaddir fs h r w plus s = some (res, s')) : Handled fs s h res s' := by
  obtain rfl | ⟨obj, -, hrun⟩ := (reads_readObj r 40).bind_cases hrun
  · exact .nothing res s'.mem
  dsimp only at hrun
  split at hrun
  · exact .same (writes_replyError _ _ w s _ _ hrun).1
  split at hrun
  · exact .same (writes_replyError _ _ w s _ _ hrun).1
  obtain ⟨⟨w₁, w₂⟩, -, hrun⟩ := splitHeader_cases hrun
  obtain ⟨e, h₁, -⟩ | ⟨out, s₁, h₁, hrun⟩ := Prog.bind_cases hrun <;>
    obtain ⟨⟨out', f, cursor⟩, hlist, hout⟩ := map_eq_some_iff.mp h₁ <;> cases hout
  -- a reply without the entries
  have hlost {m : M} (hs : s' = ⟨f, s.options, m, s.actions⟩) : Handled fs s h res s' := by
    rw [hs]
    have hhandled := @Handled.listing M F _ fs s h res _ _ _ _ _ _ [] m hop hlist (.inr rfl)
    rwa [map_nil, append_nil] at hhandled
  cases out' with
  | error e =>
    obtain ⟨⟨m, rfl⟩, -⟩ := writes_replyError e h.unique w₁ _ _ _ hrun
    exact hlost rfl
  | ok _ =>
    obtain ⟨e, h₂, -⟩ | ⟨n, s₂, h₂, hrun⟩ := Prog.bind_cases hrun
    · obtain ⟨⟨m, rfl⟩, -⟩ := writes_finish _ h.unique w₁ _ _ _ h₂
      exact hlost rfl
    · obtain ⟨⟨m, rfl⟩, -⟩ := writes_finish _ h.unique w₁ _ _ _ h₂
      cases hrun
      exact .listing m hop hlist (.inl rfl)

theorem handler_handled {op : Opcode} (hop : Opcode.ofU32 h.opcode = some op)
    (hrun : (handler fs shm h r op >>= respond h.unique w) s = some (res, s')) :
    Handled fs s h res s' := by
  obtain ⟨e, hx, -⟩ | ⟨a, s₁, hx, hrun⟩ := Prog.bind_cases hrun <;>
    obtain ⟨res', hx', hun⟩ | ⟨q, hq, hx'⟩ | ⟨hx', -⟩ := handler_serving fs shm h r s op <;>
    rw [hx'] at hx
  · cases hx
    exact .nothing res s.mem
  · obtain ⟨_, _, ⟨⟩⟩ := map_eq_some_iff.mp hx
  · cases hx
  · cases hx
    obtain ⟨m, told, htold, rfl⟩ := respond_told hrun
    obtain ⟨rfl⟩ : told = [] := by
      rcases htold with rfl | ⟨rfl, -⟩
      · exact (hun a rfl).1
      · rfl
    rw [map_nil, append_nil]
    exact .nothing res m
  · obtain ⟨⟨out, f⟩, hcall, ⟨⟩⟩ := map_eq_some_iff.mp hx
    obtain ⟨m, told, htold, rfl⟩ := respond_told hrun
    exact .call m hop hq hcall htold
  · cases hx

theorem handleMessage_handled (hrun : handleMessage fs shm r w s = some (res, s')) :
    Handled fs s (headerOf r s.mem) res s' := by
  obtain rfl | ⟨⟨obj, r'⟩, hobj, hrun⟩ := (reads_readObj r _).bind_cases hrun
  · exact .nothing res s'.mem
  have hheader : headerOf r s.mem = .ofBytes obj := by
    unfold readObj at hobj
    unfold headerOf
    rcases hr : r.readObj s.mem InHeader.size with ⟨e, err | _, r''⟩ <;> rw [hr] at hobj <;>
      cases hobj
    rfl
  rw [hheader]
  dsimp only at hrun
  split_ifs at hrun
  · exact .same (writes_replyError _ _ w s _ _ hrun).1
  unfold dispatch at hrun
  rcases hop : Opcode.ofU32 (InHeader.ofBytes obj).opcode with _ | op <;> rw [hop] at hrun
  · exact .same (writes_replyError _ _ w s _ _ hrun).1
  cases op with
  | read => exact read_handled hrun
  | readdir => exact doReaddir_handled false hop hrun
  | readdirplus => exact doReaddir_handled true hop hrun
  | _ => exact handler_handled hop hrun

end Handled

/-! ## The state of the file system -/

/-- Every function of the file system leaves a state that is related to the one before. -/
structure Follows (fs : FileSystem M F) (R : F → F → Prop) : Prop extends Closed R where
  call : ∀ {A : Type} (c : FsCall A), Leaves R (fs.call c)
  read : ∀ ctx inode handle w size offset lockOwner flags,
    Leaves (fun p p' => R p.1 p'.1) (fs.read ctx inode handle w size offset lockOwner flags)
  readdir : ∀ {K : Type} ctx inode handle size offset (addEntry : DirEntry → Prog K IoErr ℕ),
    Leaves (fun p p' => R p.1 p'.1) (fs.readdir ctx inode handle size offset addEntry)
  readdirplus : ∀ {K : Type} ctx inode handle size offset
    (addEntry : DirEntry → Entry → Prog K IoErr ℕ),
    Leaves (fun p p' => R p.1 p'.1) (fs.readdirplus ctx inode handle size offset addEntry)

theorem leaves_handleMessage [GuestMemory M] {fs : FileSystem M F} {R : F → F → Prop}
    (hfs : Follows fs R) {shm : Option VirtioShmRegion} {r : Reader} {w : Writer}
    {s s' : ServerState M F} {res : Except FsError ℕ}
    (hrun : handleMessage fs shm r w s = some (res, s')) : R s.fs s'.fs := by
  cases handleMessage_handled hrun with
  | nothing => exact hfs.refl s.fs
  | call m hop hq hcall => exact hfs.call _ _ _ _ hcall
  | read _ m hread => exact hfs.read _ _ _ _ _ _ _ _ _ _ _ hread
  | @listing _ _ readIn plus _ _ _ _ m hop hlist =>
    cases plus with
    | true => exact hfs.readdirplus _ _ _ _ _ _ _ _ _ hlist
    | false => exact hfs.readdir _ _ _ _ _ _ _ _ _ hlist

end Server

end Shelter.Fs
