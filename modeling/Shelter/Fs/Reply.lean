import Shelter.Fs.Session
import Shelter.Virtio.Segments

/-!
# Replies

What the guest finds in its buffers when a request was answered through `reply_ok` or `reply_error`:
a header, the fixed part of the reply and its data, one after the other, whatever the descriptors.

1. `writeAll_fits` and `writeAll_short` carry what `write_all` does to the state of the server.
2. `respond_fits` is the reply of an answer, over the addresses of the writer.
3. `call_payload` bounds the data, so that the length in the header is the real one.
-/

open Bytes

namespace Shelter.Fs

open Virtio Prog Passthrough List Nat


def Answer.body : Answer → List Byte
  | .ok out data => (out.map Out.toBytes).getD [] ++ data.getD []
  | _ => []

def Answer.errorField : Answer → U32
  | .err e => -(e.rawOsError.getD .eio)
  | _ => 0

def Answer.message (unique : U64) : Answer → List Byte
  | .silent => []
  | a => OutHeader.toBytes ⟨BitVec.ofNat 32 (16 + a.body.length), a.errorField, unique⟩ ++ a.body

theorem Answer.message_err (unique : U64) (e : IoErr) :
    (Answer.err e).message unique =
      OutHeader.toBytes ⟨16, -(e.rawOsError.getD .eio), unique⟩ := append_nil _

theorem Answer.body_length_le (a : Answer) : a.body.length ≤ 128 + a.data.length := by
  cases a with
  | ok out data =>
    cases out with
    | none => simp [Answer.body, Answer.data]
    | some out =>
      have := out.length_toBytes_le
      simp [Answer.body, Answer.data]
      omega
  | _ => simp [Answer.body]

namespace Server

variable {M F A : Type} [GuestMemory M] {w : Writer} {s : ServerState M F} {fs : FileSystem M F}
  {shm : Option VirtioShmRegion} {r : Reader}

theorem stored_take_append {w' : Writer} {n : ℕ} {bs bs' : List Byte} {m m₁ m₂ : M}
    (hn : w.addrs.Nodup) (hb : bs.length = n) (h : Stored (w.addrs.take n) bs m m₁)
    (ha : w'.addrs = w.addrs.drop n) (h' : Stored (w'.addrs.take bs'.length) bs' m₁ m₂) :
    Stored (w.addrs.take (bs ++ bs').length) (bs ++ bs') m m₂ := by
  rw [length_append, take_add, hb]
  rw [ha] at h'
  refine h.append h' fun x hx hx' => ?_
  rw [← take_append_drop n w.addrs] at hn
  exact (nodup_append.mp hn).2.2 x hx x (mem_of_mem_take hx') rfl

section Writing

/-- A program that appends `bs` at the writer `w`, if there is room for it, and returns `out` of the
writer that is left. -/
structure Appends (w : Writer) (bs : List Byte) (s : ServerState M F) (x : Step M F A)
    (out : Writer → A) : Prop where
  fits : bs.length ≤ w.addrs.length → ∃ w' m', x s = some (.ok (out w'), { s with mem := m' }) ∧
    Stored (w.addrs.take bs.length) bs s.mem m' ∧ w.After bs.length w'
  short : w.addrs.length < bs.length →
    ∃ m', x s = some (.error .encodeMessage, { s with mem := m' })

theorem appends_pure (hw : w.Ready s.mem) (out : Writer → A) :
    Appends w [] s (pure (out w)) out where
  fits _ := ⟨w, s.mem, rfl, .refl _, Writer.after_zero hw.counted⟩
  short h := absurd h (not_lt_zero _)

variable [LawfulGuestMemory M]

theorem appends_writeAll {bs bs' : List Byte} {f : Writer → Step M F A} {out : Writer → A}
    (hw : w.Ready s.mem)
    (hf : ∀ w' m', w'.Ready m' → Appends w' bs' { s with mem := m' } (f w') out) :
    Appends w (bs ++ bs') s (writeAll w bs >>= f) out := by
  have hok (h : bs.length ≤ w.addrs.length) : ∃ w' m',
      writeAll w bs s = some (.ok w', { s with mem := m' }) ∧
        Stored (w.addrs.take bs.length) bs s.mem m' ∧ w.After bs.length w' := by
    obtain ⟨e, w', hrun, hstored, hafter⟩ := Writer.writeAll_ok hw h
    exact ⟨w', e.mem, by rw [writeAll, hrun], hstored, hafter⟩
  constructor <;> intro h <;> rw [length_append] at h
  · obtain ⟨w₁, m₁, hrun, hstored, hafter⟩ := hok (by omega)
    obtain ⟨w₂, m₂, hrun', hstored', hafter'⟩ :=
      (hf w₁ m₁ (hafter.ready hw hstored.layout)).fits (by
        rw [hafter.addrs, length_drop]
        omega)
    refine ⟨w₂, m₂, by rw [bind_ok hrun, hrun'], ?_, ?_⟩
    · exact stored_take_append hw.nodup rfl hstored hafter.addrs hstored'
    · rw [length_append]
      exact hafter.trans hafter'
  · rcases lt_or_ge w.addrs.length bs.length with hlt | hge
    · obtain ⟨e, w', hrun, -⟩ := Writer.writeAll_short hw hlt
      exact ⟨e.mem, bind_error (by rw [writeAll, hrun])⟩
    · obtain ⟨w₁, m₁, hrun, hstored, hafter⟩ := hok hge
      obtain ⟨m₂, hrun'⟩ := (hf w₁ m₁ (hafter.ready hw hstored.layout)).short (by
        rw [hafter.addrs, length_drop]
        omega)
      exact ⟨m₂, by rw [bind_ok hrun, hrun']⟩

theorem appends_replyError (hw : w.Ready s.mem) (unique : U64) (e : IoErr) :
    Appends w (OutHeader.toBytes ⟨16, -(e.rawOsError.getD .eio), unique⟩) s (replyError e unique w)
      Writer.bytesWritten := by
  rw [← append_nil (OutHeader.toBytes _)]
  exact appends_writeAll hw fun _ _ hw' => appends_pure hw' _

theorem appends_replyOk (hw : w.Ready s.mem) (unique : U64) (out : Option Out)
    (data : Option (List Byte)) :
    Appends w ((Answer.ok out data).message unique) s (replyOk out data unique w)
      Writer.bytesWritten := by
  have hmsg : (Answer.ok out data).message unique = OutHeader.toBytes ⟨BitVec.ofNat 32
      (OutHeader.size + ((out.map Out.toBytes).getD []).length + (data.getD []).length), 0,
      unique⟩ ++ ((out.map Out.toBytes).getD [] ++ (data.getD [] ++ [])) := by
    simp [Answer.message, Answer.body, Answer.errorField, OutHeader.size, add_assoc]
  rw [hmsg]
  exact appends_writeAll hw fun _ _ hw₁ => appends_writeAll hw₁ fun _ _ hw₂ =>
    appends_writeAll hw₂ fun _ _ hw₃ => appends_pure hw₃ _

theorem respond_fits (hw : w.Ready s.mem) (hfresh : w.bytesWritten = 0) (unique : U64)
    (a : Answer) (h : (a.message unique).length ≤ w.addrs.length) :
    ∃ m', respond unique w a s = some (.ok (a.message unique).length,
        { s with mem := m', actions := s.actions ++ a.entries.map .reported }) ∧
      Stored (w.addrs.take (a.message unique).length) (a.message unique) s.mem m' := by
  cases a with
  | silent => exact ⟨s.mem, by simp [respond, Answer.message, Answer.entries], .refl _⟩
  | err e =>
    rw [Answer.message_err] at h ⊢
    obtain ⟨w', m', hrun, hstored, hafter⟩ := (appends_replyError hw unique e).fits h
    refine ⟨m', ?_, hstored⟩
    rw [respond, hrun, hafter.written, hfresh, zero_add]
    simp [Answer.entries]
  | ok out data =>
    obtain ⟨w', m', hrun, hstored, hafter⟩ := (appends_replyOk hw unique out data).fits h
    refine ⟨m', ?_, hstored⟩
    rw [respond, bind_ok hrun, hafter.written, hfresh, zero_add]
    rfl

/-- `n` bytes were written for the answer, and nothing else: a header with that length and with the
errno, negated, and then the fixed part and the data. -/
def Replied (unique : U64) (w : Writer) (a : Answer) (n : ℕ) (m m' : M) : Prop :=
  match a with
  | .silent => n = 0 ∧ Stored [] [] m m'
  | .err e => n = 16 ∧ Stored (w.addrs.take n)
      (OutHeader.toBytes ⟨BitVec.ofNat 32 n, -(e.rawOsError.getD .eio), unique⟩) m m'
  | .ok out data => ∃ body, body = (out.map Out.toBytes).getD [] ++ data.getD [] ∧
      n = 16 + body.length ∧ n < 2 ^ 32 ∧ Stored (w.addrs.take n)
        (OutHeader.toBytes ⟨BitVec.ofNat 32 n, 0, unique⟩ ++ body) m m'

theorem respond_short (hw : w.Ready s.mem) (unique : U64) (a : Answer)
    (h : w.addrs.length < (a.message unique).length) :
    ∃ m', respond unique w a s = some (.error .encodeMessage, { s with mem := m' }) := by
  cases a with
  | silent => exact absurd h (not_lt_zero _)
  | err e => exact (appends_replyError hw unique e).short (Answer.message_err unique e ▸ h)
  | ok out data =>
    obtain ⟨m', hrun⟩ := (appends_replyOk hw unique out data).short h
    exact ⟨m', bind_error hrun⟩

theorem respond_replied {s' : ServerState M F} {n : ℕ} (hw : w.Ready s.mem)
    (hfresh : w.bytesWritten = 0) {unique : U64} {a : Answer} (hlen : 16 + a.body.length < 2 ^ 32)
    (hrun : respond unique w a s = some (.ok n, s')) : Replied unique w a n s.mem s'.mem := by
  rcases lt_or_ge w.addrs.length (a.message unique).length with hlt | hge
  · obtain ⟨m', hshort⟩ := respond_short hw unique a hlt
    cases hshort.symm.trans hrun
  · obtain ⟨m', hfits, hstored⟩ := respond_fits hw hfresh unique a hge
    cases hfits.symm.trans hrun
    cases a with
    | silent | err => exact ⟨rfl, hstored⟩
    | ok out data =>
      have hn : ((Answer.ok out data).message unique).length =
          16 + (Answer.ok out data).body.length := by
        simp [Answer.message]
      rw [hn] at hstored ⊢
      exact ⟨_, rfl, rfl, hlen, hstored⟩

end Writing

/-! ## The message -/

/-- `READ`, `READDIR` and `READDIRPLUS`. -/
def dataFirst (h : InHeader) : Prop :=
  Opcode.ofU32 h.opcode ∈ [some .read, some .readdir, some .readdirplus]
  deriving Decidable

def answerMessage (fs : FileSystem M F) (shm : Option VirtioShmRegion) (h : InHeader) (r : Reader) :
    Step M F Answer :=
  if maxBufferSize + bufferHeaderSize < h.len then pure enomem
  else match Opcode.ofU32 h.opcode with
    | none => pure (.err (.os .enosys))
    | some opcode => handler fs shm h r opcode

theorem handleMessage_eq {r' : Reader} {obj : List Byte}
    (hr : readObj r InHeader.size s = some (.ok (obj, r'), s)) (hop : ¬ dataFirst (.ofBytes obj)) :
    handleMessage fs shm r w s =
      (answerMessage fs shm (.ofBytes obj) r' >>= respond (InHeader.ofBytes obj).unique w) s := by
  unfold handleMessage
  rw [bind_ok hr]
  unfold answerMessage dispatch
  dsimp only
  split_ifs with hlen
  · rfl
  · unfold dataFirst at hop
    rcases hopcode : Opcode.ofU32 (InHeader.ofBytes obj).opcode with _ | op
    · rfl
    · rw [hopcode] at hop
      cases op <;> first | rfl | exact absurd (by simp) hop

theorem answerMessage_serving (fs : FileSystem M F) (shm : Option VirtioShmRegion) (h : InHeader)
    (r : Reader) (s : ServerState M F) :
    Serving fs (fun q => ∃ op, Serves h op s.options q) s (answerMessage fs shm h r) := by
  refine serving_ite (fun _ => serving_err _) fun _ => ?_
  rcases Opcode.ofU32 h.opcode with _ | op
  · exact serving_err _
  · exact (handler_serving fs shm h r s op).mono fun _ hq => ⟨op, hq⟩

/-- Before the reply nothing is written, and its data is what the file system returned. -/
theorem answerMessage_cases {h : InHeader} {s' : ServerState M F} {a : Answer}
    (hrun : answerMessage fs shm h r s = some (.ok a, s')) :
    s'.mem = s.mem ∧ (a.data = [] ∨ ∃ (A : Type) (c : FsCall A) (out : A) (f : F),
      fs.call c s.fs = some (.ok out, f) ∧ c.Fits ∧ a.data.length = c.payload out) := by
  obtain ⟨res, hx, hun⟩ | ⟨q, ⟨op, hq⟩, hx⟩ | ⟨hx, -⟩ := answerMessage_serving fs shm h r s <;>
    rw [hx] at hrun
  · cases hrun
    exact ⟨rfl, .inl (hun a rfl).2⟩
  · obtain ⟨⟨res, f⟩, hcall, ⟨⟩⟩ := Option.map_eq_some_iff.mp hrun
    refine ⟨rfl, ?_⟩
    cases res with
    | error e => exact .inl (hq.failed e).2
    | ok out => exact .inr ⟨q.A, q.call, out, f, hcall, hq.fits, hq.payload out⟩
  · cases hrun

end Server

/-! ## The data of the file system -/

namespace Passthrough

variable {A : Type} {s s' : Served} {a : A} {host : Host} {size : U32} {inode : U64}
  {bs : List Byte}

theorem sys_ok {answer : ℕ → Except Errno A} {c : SysCall} (h : sys answer c s = some (.ok a, s')) :
    answer s.thread.log.length = .ok a := by
  unfold sys sysFor at h
  rcases hans : answer s.thread.log.length with e | b <;> rw [hans] at h <;> cases h
  rfl

theorem xattrAnswer_ok {n : ℕ} {value : List Byte}
    (h : xattrAnswer host size n = .ok (.value value)) : value.length ≤ size.toNat := by
  unfold xattrAnswer at h
  rcases hb : host.bytes n with e | bs <;> rw [hb] at h
  · cases h
  · dsimp only at h
    split_ifs at h with hzero hlong
    · cases h
    obtain rfl := XattrReply.value.inj (Except.ok.inj h)
    exact Nat.le_of_not_lt hlong

theorem readlink_ok (h : readlink host inode s = some (.ok bs, s')) : bs.length ≤ pathMax := by
  obtain ⟨e, -, ⟨⟩⟩ | ⟨data, s₁, -, h⟩ := bind_cases h
  obtain ⟨e, -, ⟨⟩⟩ | ⟨target, s₂, -, h⟩ := bind_cases h
  cases h
  exact (length_take_le _ _)

theorem getxattr_ok {name : CStr}
    (h : getxattr host inode name size s = some (.ok (.value bs), s')) :
    bs.length ≤ size.toNat := by
  unfold getxattr at h
  rw [bind_ok (get_run s)] at h
  split_ifs at h
  · cases h
  · cases h
  obtain ⟨e, -, ⟨⟩⟩ | ⟨file, s₁, -, h⟩ := bind_cases h
  exact xattrAnswer_ok (sys_ok h)

theorem listxattr_ok (h : listxattr host inode size s = some (.ok (.value bs), s')) :
    bs.length ≤ size.toNat := by
  unfold listxattr at h
  rw [bind_ok (get_run s)] at h
  split_ifs at h
  · cases h
  obtain ⟨e, -, ⟨⟩⟩ | ⟨file, s₁, -, h⟩ := bind_cases h
  exact xattrAnswer_ok (sys_ok h)

theorem call_payload {c : FsCall A} (hc : c.Fits) (h : call host c s = some (.ok a, s')) :
    c.payload a ≤ 2 ^ 20 := by
  have hmax {size : U32} (hsize : ¬ maxBufferSize < size) : size.toNat ≤ 2 ^ 20 := by
    rw [BitVec.not_lt] at hsize
    exact BitVec.le_def.mp hsize
  cases c with
  | readlink ctx inode => exact (readlink_ok h).trans (by decide)
  | getxattr ctx inode name size =>
    cases a with
    | value bs => exact (getxattr_ok h).trans (hmax hc)
    | count n => exact zero_le _
  | listxattr ctx inode size =>
    cases a with
    | value bs => exact (listxattr_ok h).trans (hmax hc)
    | count n => exact zero_le _
  | ioctl => cases h
  | create => exact (show 16 ≤ 2 ^ 20 by decide)
  | _ => exact zero_le _

end Passthrough

/-! ## The reply in the buffers of the guest -/

namespace Server

variable {M : Type} [GuestMemory M] {r : Reader}

theorem length_message_lt {host : Host} {shm : Option VirtioShmRegion} {h : InHeader}
    {s s' : ServerState M Served} {a : Answer}
    (hrun : answerMessage (fileSystem M host) shm h r s = some (.ok a, s')) :
    16 + a.body.length < 2 ^ 32 := by
  have hbody := a.body_length_le
  obtain hdata | ⟨A, c, out, f, hcall, hfits, hdata⟩ := (answerMessage_cases hrun).2
  · rw [hdata, length_nil] at hbody
    omega
  · have := call_payload hfits hcall
    omega

theorem readObj_run {F : Type} (hr : r.buffer.Counted) (s : ServerState M F) (n : ℕ) :
    (n ≤ r.addrs.length ∧
      ∃ r', readObj r n s = some (.ok (contents s.mem (r.addrs.take n), r'), s) ∧ r.After n r') ∨
    (r.addrs.length < n ∧ readObj r n s = some (.error .decodeMessage, s)) := by
  unfold readObj
  rcases lt_or_ge r.addrs.length n with hlt | hge
  · right
    have hshort := Reader.readObj_short hr s.mem hlt
    rcases hrun : r.readObj s.mem n with ⟨e, _ | _, r'⟩ <;> rw [hrun] at hshort <;> cases hshort
    exact ⟨hlt, rfl⟩
  · left
    obtain ⟨ranges, r', hrun, hafter⟩ := Reader.readObj_ok hr s.mem hge
    exact ⟨hge, r', by rw [hrun], hafter⟩

variable [LawfulGuestMemory M]

/-- The reply of every request but `READ`, `READDIR` and `READDIRPLUS`, over the writable bytes of
its chain in order. -/
theorem reply_exact (host : Host) (shm : Option VirtioShmRegion) {chain : DescriptorChain}
    {s s' : ServerState M Served} {r : Reader} {w : Writer} {n : ℕ}
    (hr : Reader.new s.mem chain = .ok r) (hw : Writer.new s.mem chain = .ok w)
    (hnodup : w.addrs.Nodup)
    (hop : ¬ dataFirst (.ofBytes (contents s.mem (r.addrs.take InHeader.size))))
    (hrun : handleMessage (fileSystem M host) shm r w s = some (.ok n, s')) :
    ∃ h r' a s₁, h = InHeader.ofBytes (contents s.mem (r.addrs.take InHeader.size)) ∧
      r.After InHeader.size r' ∧
      answerMessage (fileSystem M host) shm h r' s = some (.ok a, s₁) ∧
      Replied h.unique w a n s.mem s'.mem := by
  obtain ⟨hready, hfresh⟩ := Writer.new_ready hw hnodup
  obtain ⟨-, r', hobj, hafter⟩ | ⟨-, hobj⟩ :=
    readObj_run (Reader.new_counted hr) s InHeader.size
  · rw [handleMessage_eq hobj hop] at hrun
    obtain ⟨e, -, ⟨⟩⟩ | ⟨a, s₁, hans, hres⟩ := bind_cases hrun
    have hmem := (answerMessage_cases hans).1
    rw [← hmem] at hready
    have hreply := respond_replied hready hfresh (length_message_lt hans) hres
    rw [hmem] at hreply
    exact ⟨_, r', a, s₁, rfl, hafter, hans, hreply⟩
  · unfold handleMessage at hrun
    cases (bind_error hobj).symm.trans hrun

/-- The reply to `INIT`, over two buffers of the guest. -/
theorem reply_exact_init :
    ∃ (s' : ServerState FlatMemory Served) (body : List Byte),
      handleMessage (fileSystem FlatMemory calmHost) none
          ⟨⟨[⟨0x100, 56⟩], 0⟩⟩ ⟨⟨[⟨0x800, 30⟩, ⟨0x81e, 60⟩], 0⟩⟩
          (start smallConfig 3 (smallGuest initBytes [30, 60])) = some (.ok 80, s') ∧
        Stored (List.range' 0x800 80) (OutHeader.toBytes ⟨80, 0, 7⟩ ++ body)
          (smallGuest initBytes [30, 60]) s'.mem := by
  obtain ⟨s', hrun, -⟩ : ∃ s', handleMessage (fileSystem FlatMemory calmHost) none
      ⟨⟨[⟨0x100, 56⟩], 0⟩⟩ ⟨⟨[⟨0x800, 30⟩, ⟨0x81e, 60⟩], 0⟩⟩
      (start smallConfig 3 (smallGuest initBytes [30, 60])) = some (.ok 80, s') ∧ () = () :=
    exists_ok (fun _ => ()) (by decide +kernel)
  have hreader : Reader.new (smallGuest initBytes [30, 60]) (smallHead initBytes) =
      .ok ⟨⟨[⟨0x100, 56⟩], 0⟩⟩ := rfl
  obtain ⟨h, r', a, s₁, hh, -, -, hreply⟩ := reply_exact calmHost none hreader rfl
    (by decide +kernel) (by decide +kernel) hrun
  have hunique : h.unique = 7 := by
    rw [hh]
    decide +kernel
  rw [hunique] at hreply
  cases a with
  | silent | err => cases hreply.1
  | ok out data =>
    obtain ⟨body, -, -, -, hstored⟩ := hreply
    exact ⟨s', body, hrun, hstored⟩

end Server

end Shelter.Fs
