import Shelter.Fs.Extensions
import Shelter.Virtio.Segments

/-!
# Names in the body of a request

The body of `RENAME` is two names and that of `SETXATTR` a name and a value. The handlers look for
the end of the first name, and leave it to `CStr` to find that there is one end only.
-/

open Bytes

namespace Shelter.Virtio.Reader

open List

variable {M : Type} [GuestMemory M] {r r' : Reader} {m : M} {n k : ℕ} {e : ReadEffect}

theorem length_of_read (h : r.read m n = (e, .ok k, r')) : e.data.length = k ∧ k ≤ n := by
  unfold read DescriptorChainConsumer.consume at h
  dsimp only at h
  split_ifs at h
  · cases h
    exact ⟨rfl, Nat.zero_le _⟩
  · cases h
    refine ⟨rfl, ?_⟩
    rw [copyOut_data, length_contents]
    exact length_take_le ..
  · cases h

theorem length_of_readExactLoop {turns : ℕ} (h : readExactLoop m turns n r = (e, .ok (), r')) :
    e.data.length = n := by
  fun_induction readExactLoop m turns n r generalizing e r' <;> cases h
  case case1 => rfl
  case case5 turns n r e k r₁ hne hread e' r₂ ih hrest =>
    obtain ⟨hlen, hle⟩ := length_of_read hread
    rw [length_append, hlen, ih hrest]
    omega

end Shelter.Virtio.Reader

namespace Shelter.Fs.Server

open Virtio Prog List

variable {M F : Type} {s : ServerState M F} {h : InHeader} {r : Reader} {n : ℕ}
  {name rest buf body : List Byte}

theorem splitAtNul_nul (hname : 0 ∉ name) (s : ServerState M F) :
    splitAtNul (name ++ 0 :: rest) s = some (.ok (name ++ [0], rest), s) := by
  have hsplit : name ++ 0 :: rest = (name ++ [0]) ++ rest := by simp
  unfold splitAtNul
  rw [if_pos (by simp), idxOf_nul hname, splitAt_eq, hsplit, take_left' (by simp),
    drop_left' (by simp)]
  rfl

theorem bytesToCstr_nul (hname : 0 ∉ name) (s : ServerState M F) :
    bytesToCstr (name ++ [0]) s = some (.ok name, s) := by
  unfold bytesToCstr
  rw [if_pos (by rw [idxOf_nul hname, length_append]; rfl), dropLast_concat]
  rfl

theorem bytesToCstr_error (hbuf : ∀ name, 0 ∉ name → buf ≠ name ++ [0]) (s : ServerState M F) :
    bytesToCstr buf s = some (.error .invalidCString, s) := by
  refine congrFun (if_neg fun hlast => ?_) s
  have hmem : (0 : Byte) ∈ buf := by
    rw [← idxOf_lt_length_iff]
    omega
  obtain ⟨name, rest, rfl, hname⟩ := eq_append_cons_of_mem hmem
  rw [idxOf_nul hname] at hlast
  have hrest : rest = [] := by simpa using hlast
  exact hbuf name hname (by rw [hrest])

theorem nul_inj {name' rest' : List Byte} (hname : 0 ∉ name) (hname' : 0 ∉ name')
    (heq : name ++ 0 :: rest = name' ++ 0 :: rest') : name = name' ∧ rest = rest' := by
  have hlen : name.length = name'.length := by rw [← idxOf_nul hname, heq, idxOf_nul hname']
  exact ⟨append_inj_left heq hlen, (cons.inj (append_inj_right heq hlen)).2⟩

variable [GuestMemory M]

/-- The message after its header and a structure of `n` bytes. -/
def requestBody (h : InHeader) (r : Reader) (n : ℕ) (s : ServerState M F) :
    Except FsError (List Byte) :=
  if InHeader.size + n ≤ h.len.toNat then
    match r.readObj s.mem (h.len.toNat - InHeader.size - n) with
    | (e, .ok (), _) => .ok e.data
    | (_, .error _, _) => .error .decodeMessage
  else .error .invalidHeaderLength

theorem length_requestBody (hbody : requestBody h r n s = .ok body) : body.length < 2 ^ 32 := by
  unfold requestBody at hbody
  split_ifs at hbody
  split at hbody <;> cases hbody
  have hlen := Reader.length_of_readExactLoop (by assumption)
  omega

/-- How `do_rename` and `setxattr` begin. -/
def readName (h : InHeader) (r : Reader) (n : ℕ) (f : List Byte → List Byte → Step M F Answer) :
    Step M F Answer := do
  let len ← remaining h n
  let (buf, _) ← readObj r len
  let (name, rest) ← splitAtNul buf
  f name rest

theorem readName_eq (f : List Byte → List Byte → Step M F Answer) :
    readName h r n f s = match requestBody h r n s with
      | .ok body => (do let (name, rest) ← splitAtNul body; f name rest : Step M F Answer) s
      | .error e => some (.error e, s) := by
  unfold requestBody readName remaining readObj
  split_ifs
  · rcases hobj : r.readObj s.mem (h.len.toNat - InHeader.size - n) with ⟨e, err | _, r'⟩ <;>
      simp only [bind, pure, hobj]
  · rfl

/-- The handler makes a call in `P` and answers with its result. If there is none in `P`, it fails
and makes no call. -/
def CallsExactly (x : FileSystem M F → Step M F Answer) (s : ServerState M F)
    (P : FsCall Unit → Prop) : Prop :=
  (∃ c, P c ∧ ∀ fs, x fs s = answer fs c okEmpty s) ∨
    (∀ c, ¬ P c) ∧ ∃ e, ∀ fs, x fs s = some (.error e, s)

/-- The body is a name with its end, and what the call is made of as well. -/
def Named (h : InHeader) (r : Reader) (n : ℕ) (s : ServerState M F)
    (P : List Byte → List Byte → FsCall Unit → Prop) (c : FsCall Unit) : Prop :=
  ∃ name rest, 0 ∉ name ∧ requestBody h r n s = .ok (name ++ 0 :: rest) ∧ P name rest c

theorem readName_calls {x : FileSystem M F → Step M F Answer}
    {P : List Byte → List Byte → FsCall Unit → Prop}
    (f : FileSystem M F → List Byte → List Byte → Step M F Answer)
    (hx : ∀ fs, x fs s = readName h r n (f fs) s)
    (hf : ∀ name rest, 0 ∉ name → requestBody h r n s = .ok (name ++ 0 :: rest) →
      CallsExactly (fun fs => f fs (name ++ [0]) rest) s (P name rest)) :
    CallsExactly x s (Named h r n s P) := by
  unfold CallsExactly Named
  simp only [hx, readName_eq]
  rcases hbody : requestBody h r n s with e | body
  · exact .inr ⟨by rintro c ⟨_, _, -, ⟨⟩, -⟩, e, fun _ => rfl⟩
  by_cases hmem : (0 : Byte) ∈ body
  · obtain ⟨name, rest, rfl, hname⟩ := eq_append_cons_of_mem hmem
    have hrun (fs) : (splitAtNul (name ++ 0 :: rest) >>= fun out => f fs out.1 out.2) s =
        f fs (name ++ [0]) rest s := bind_ok (splitAtNul_nul hname s)
    rcases hf name rest hname hbody with ⟨c, hc, hcall⟩ | ⟨hnone, e, hfail⟩
    · exact .inl ⟨c, ⟨name, rest, hname, rfl, hc⟩, fun fs => (hrun fs).trans (hcall fs)⟩
    · refine .inr ⟨?_, e, fun fs => (hrun fs).trans (hfail fs)⟩
      rintro c ⟨name', rest', hname', heq, hc⟩
      obtain ⟨rfl, rfl⟩ := nul_inj hname hname' (Except.ok.inj heq)
      exact hnone c hc
  · refine .inr ⟨?_, .missingParameter, fun fs => bind_error (congrFun (if_neg hmem) s)⟩
    rintro c ⟨name, rest, -, ⟨⟩, -⟩
    simp at hmem

/-- Behind the name is another one. -/
def RenameOf (h : InHeader) (newdir : U64) (flags : U32) (oldname rest : List Byte)
    (c : FsCall Unit) : Prop :=
  ∃ newname, 0 ∉ newname ∧ rest = newname ++ [0] ∧
    c = .rename h.context h.nodeid oldname newdir newname flags

/-- Behind the name is a value of the length that the structure before it tells. -/
def SetxattrOf (h : InHeader) (obj name value : List Byte) (c : FsCall Unit) : Prop :=
  value.length = (word 32 obj 0).toNat ∧
    c = .setxattr h.context h.nodeid name value (word 32 obj 4)

theorem doRename_calls (h : InHeader) (r : Reader) (msgSize : ℕ) (newdir : U64) (flags : U32)
    (s : ServerState M F) : CallsExactly (fun fs => doRename fs h r msgSize newdir flags) s
      (Named h r msgSize s (RenameOf h newdir flags)) := by
  refine readName_calls (fun fs old new => do
    let oldname ← bytesToCstr old
    let newname ← bytesToCstr new
    answer fs (.rename h.context h.nodeid oldname newdir newname flags) okEmpty) (fun _ => rfl)
    fun old rest hold _ => ?_
  unfold CallsExactly
  simp only [bind_ok (bytesToCstr_nul hold s)]
  by_cases hrest : ∃ new, 0 ∉ new ∧ rest = new ++ [0]
  · obtain ⟨new, hnew, rfl⟩ := hrest
    exact .inl ⟨_, ⟨new, hnew, rfl, rfl⟩, fun fs => bind_ok (bytesToCstr_nul hnew s)⟩
  · refine .inr ⟨?_, .invalidCString, fun fs => bind_error (bytesToCstr_error ?_ s)⟩
    · rintro _ ⟨new, hnew, heq, -⟩
      exact hrest ⟨new, hnew, heq⟩
    · exact fun new hnew heq => hrest ⟨new, hnew, heq⟩

theorem setxattr_calls (h : InHeader) (r : Reader) (s : ServerState M F) :
    CallsExactly (fun fs => setxattr fs h r) s fun c =>
      ∃ obj r', readObj r 8 s = some (.ok (obj, r'), s) ∧ Named h r' 8 s (SetxattrOf h obj) c := by
  obtain ⟨e | ⟨obj, r'⟩, hobj⟩ := reads_readObj r 8 s
  · refine .inr ⟨?_, e, fun fs => bind_error hobj⟩
    rintro _ ⟨obj, r', hobj', -⟩
    cases hobj.symm.trans hobj'
  have hname : CallsExactly (fun fs => setxattr fs h r) s (Named h r' 8 s (SetxattrOf h obj)) := by
    refine readName_calls (fun fs name value =>
      if word 32 obj 0 ≠ BitVec.ofNat 32 value.length then
        fail (.invalidXattrSize (word 32 obj 0) value.length)
      else do
        let name ← bytesToCstr name
        answer fs (.setxattr h.context h.nodeid name value (word 32 obj 4)) okEmpty)
      (fun _ => bind_ok hobj) fun name value hname hbody => ?_
    have hlt := length_requestBody hbody
    rw [length_append, length_cons] at hlt
    by_cases hsize : word 32 obj 0 = BitVec.ofNat 32 value.length
    · refine .inl ⟨_, ⟨by bv_omega, rfl⟩, fun fs => ?_⟩
      exact (congrFun (if_neg (not_not.mpr hsize)) s).trans (bind_ok (bytesToCstr_nul hname s))
    · refine .inr ⟨?_, _, fun fs => congrFun (if_pos hsize) s⟩
      rintro _ ⟨hlen, -⟩
      exact hsize (by bv_omega)
  obtain ⟨c, hc, hcall⟩ | ⟨hnone, e, hfail⟩ := hname
  · exact .inl ⟨c, ⟨obj, r', hobj, hc⟩, hcall⟩
  · refine .inr ⟨?_, e, hfail⟩
    rintro c ⟨obj', r₁, hobj', hc⟩
    cases hobj.symm.trans hobj'
    exact hnone c hc

/-- The file system gets a call exactly for a body that is two names, or a name and a value of the
length that the request tells. -/
theorem names_exact (h : InHeader) (r : Reader) (s : ServerState M F) :
    (∀ msgSize newdir flags, CallsExactly (fun fs => doRename fs h r msgSize newdir flags) s
      (Named h r msgSize s (RenameOf h newdir flags))) ∧
    CallsExactly (fun fs => setxattr fs h r) s fun c =>
      ∃ obj r', readObj r 8 s = some (.ok (obj, r'), s) ∧ Named h r' 8 s (SetxattrOf h obj) c :=
  ⟨fun _ _ _ => doRename_calls .., setxattr_calls h r s⟩

end Shelter.Fs.Server
