import Shelter.Vsock.MuxerRx

/-!
# What the proxies have in common

A proxy stands for a socket of the guest and owns a socket of the host. The calls on the host
socket are not modelled: what the kernel answered is an argument of the call, so a result about
all arguments is about all behaviours of the host. `recv` and `send` only bound what an answer
can be, by the size of the buffer and by the limit of the kernel on one transfer.

`Io` is what the calls of a proxy act on: the RX side of the device and, as a record of what has
happened, the messages pushed, the bytes exchanged with the socket and the packets delivered.
`recvLoop` is the loop of `recv_pkt`, which the three kinds of proxies share up to the treatment
of a single head.
-/

open Bytes

namespace Shelter.Vsock

open Virtio

variable {P M : Type} [GuestMemory M]

/-! ## Answers of the kernel -/

structure Errno where
  val : ℕ
  pos : 0 < val
  small : val < 4096
  deriving DecidableEq, Repr

/-- An error number as the negative `i32` that goes to the guest. -/
def Errno.neg (e : Errno) : U32 := -BitVec.ofNat 32 e.val

def eperm : Errno := ⟨1, by decide, by decide⟩
def eagain : Errno := ⟨11, by decide, by decide⟩
def ewouldblock : Errno := eagain
def econnrefused : Errno := ⟨111, by decide, by decide⟩

def oNonblock : U32 := 0x800

/-- The most that one call of `recv` or `send` transfers on Linux. -/
def maxRwCount : ℕ := 0x7ffff000

/-- The bytes the kernel has for the next `recv`, or its error. -/
abbrev RecvAnswer := Except Errno (List Byte)

/-- The number of bytes the kernel is ready to take from the next `send`, or its error. -/
abbrev SendAnswer := Except Errno ℕ

def recv (answer : RecvAnswer) (maxLen : ℕ) : Except Errno (List Byte) :=
  answer.map fun bs => bs.take (min maxLen maxRwCount)

def send (answer : SendAnswer) (buf : List Byte) : Except Errno ℕ :=
  answer.map fun n => min n (min buf.length maxRwCount)

/-- The bytes of a packet that the socket takes when the whole buffer is sent. -/
def VsockPacket.sentBytes (pkt : VsockPacket) (answer : SendAnswer) (m : M) : List Byte :=
  match pkt.bufBytes m with
  | some buf => buf.take ((send answer buf).toOption.getD 0)
  | none => []

/-- `connect`, which may go on in the background. -/
inductive ConnectAnswer
  | ok
  | inProgress
  | err (e : Errno)
  deriving DecidableEq, Repr

/-- The events of a poll that the proxies look at. -/
structure EventSet where
  inp : Bool
  out : Bool
  hangUp : Bool
  deriving DecidableEq, Repr

namespace EventSet

def empty : EventSet := ⟨false, false, false⟩
def IN : EventSet := ⟨true, false, false⟩
def inOut : EventSet := ⟨true, true, false⟩

end EventSet

/-! ## Status and updates -/

inductive ProxyStatus
  | idle | connecting | connected | listening | closed | waitingCreditUpdate | reverseInit
  | waitingOnAccept
  deriving DecidableEq, Repr

inductive ProxyRemoval
  | keep | immediate | deferred
  deriving DecidableEq, Repr

structure ProxyUpdate where
  signalQueue : Bool := false
  removeProxy : ProxyRemoval := .keep
  polling : Option (U64 × ℕ × EventSet) := none
  newProxy : Option (U32 × ℕ) := none
  pushAccept : Option (U64 × U64) := none
  pushCreditReq : Option MuxerRx := none
  deriving DecidableEq, Repr

def removalOf (status : ProxyStatus) : ProxyRemoval :=
  if status = .listening then .immediate else .deferred

/-! ## What a call acts on -/

/-- A data packet as the guest finds it when it enters the used ring, and the credit the proxy
had then. -/
structure Delivery where
  head : U16
  usedLen : U32
  op : U16
  len : U32
  payload : List Byte
  bufSize : ℕ
  inFlight : U32
  bufAlloc : U32
  deriving DecidableEq, Repr

/-- The RX side, and the record of what went through the proxy. -/
structure Io (M : Type) extends RxSide M where
  /-- the messages handed to `push_packet` -/
  pushed : List MuxerRx
  /-- the bytes that `recv` returned -/
  received : List Byte
  /-- the bytes that `send` took -/
  sent : List Byte
  /-- the data packets placed in the used ring -/
  delivered : List Delivery

def Io.start (s : RxSide M) : Io M := ⟨s, [], [], [], []⟩

/-- Call `push_packet`. -/
def Io.push (io : Io M) (cid : U64) (rx : MuxerRx) : Option (Io M) :=
  (pushPacket cid rx io.toRxSide).map fun s =>
    { io with toRxSide := s, pushed := io.pushed ++ [rx] }

variable {io io' : Io M} {answer : RecvAnswer} {p p' : P} {wait : Bool}

theorem Io.push_logs {cid : U64} {rx : MuxerRx} (h : io.push cid rx = some io') :
    io'.pushed = io.pushed ++ [rx] ∧ io'.received = io.received ∧ io'.sent = io.sent ∧
      io'.delivered = io.delivered := by
  obtain ⟨s, _, rfl⟩ := Option.map_eq_some_iff.mp h
  exact ⟨rfl, rfl, rfl, rfl⟩

/-! ## The receive loop -/

inductive RecvPkt
  | close
  | error
  | read (cnt : ℕ)
  | waitForCredit
  deriving DecidableEq, Repr

/-- Read from the socket into a buffer, at most `maxLen` bytes. -/
def recvInto (addr maxLen : ℕ) (answer : RecvAnswer) (io : Io M) : RecvPkt × Io M :=
  match recv answer maxLen with
  | .ok bs =>
    if 0 < bs.length then
      (.read bs.length,
        { io with mem := (writeSlice io.mem addr bs).1, received := io.received ++ bs })
    else (.close, io)
  | .error _ => (.error, io)

theorem recvInto_read {addr maxLen cnt : ℕ}
    (h : recvInto addr maxLen answer io = (.read cnt, io')) :
    ∃ bs, bs.length = cnt ∧ 0 < cnt ∧ cnt ≤ maxLen ∧ cnt ≤ maxRwCount ∧
      io' = { io with
        mem := (writeSlice io.mem addr bs).1, received := io.received ++ bs } := by
  unfold recvInto recv at h
  cases answer with
  | error e => simp [Except.map] at h
  | ok bs =>
    simp only [Except.map] at h
    split_ifs at h with hpos
    · cases h
      refine ⟨_, rfl, hpos, ?_, ?_, rfl⟩ <;> simp only [List.length_take] <;> omega
    · simp at h

/-- What is to be done with a head: undo the pop, where the source computes the length 0, or put
it in the used ring with a length. -/
inductive HeadResult (P M : Type)
  | undo (waitCredit : Bool) (proxy : P) (io : Io M)
  | used (len : ℕ) (pkt : VsockPacket) (proxy : P) (io : Io M)

/-- A kind of proxy, as far as the receive loop is concerned. -/
structure Receiver (P M : Type) where
  /-- fill the packet of a head -/
  fill : P → DescriptorChain → RecvAnswer → Io M → HeadResult P M
  /-- count a packet that goes to the used ring -/
  count : P → ℕ → P
  /-- the bytes in flight and the buffer space of the peer -/
  credit : P → U32 × U32

variable (R : Receiver P M)

def Receiver.delivery (head : U16) (len : ℕ) (pkt : VsockPacket) (p : P) (mem : M) : Delivery where
  head := head
  usedLen := BitVec.ofNat 32 len
  op := pkt.op mem
  len := pkt.len mem
  payload := bytesAt mem (pkt.buf.getD 0) (pkt.len mem).toNat
  bufSize := pkt.bufSize
  inFlight := (R.credit p).1
  bufAlloc := (R.credit p).2

def Receiver.place (head : U16) (len : ℕ) (pkt : VsockPacket) (p : P) (io : Io M) : P × Io M :=
  let (_, queue, mem) := io.queue.addUsed io.mem head (BitVec.ofNat 32 len)
  let delivered := io.delivered ++ [R.delivery head len pkt p mem]
  (R.count p len, { io with queue, mem, delivered })

section Place

variable (R : Receiver P M) (head : U16) (len : ℕ) (pkt : VsockPacket) (p : P) (io : Io M)

@[simp] theorem Receiver.place_queue : (R.place head len pkt p io).2.queue =
    (io.queue.addUsed io.mem head (BitVec.ofNat 32 len)).2.1 := rfl

@[simp] theorem Receiver.place_mem : (R.place head len pkt p io).2.mem =
    (io.queue.addUsed io.mem head (BitVec.ofNat 32 len)).2.2 := rfl

@[simp] theorem Receiver.place_received :
    (R.place head len pkt p io).2.received = io.received := rfl

theorem Receiver.place_delivered : (R.place head len pkt p io).2.delivered =
    io.delivered ++ [R.delivery head len pkt p (R.place head len pkt p io).2.mem] := rfl

end Place

/-- A turn of the loop of `recv_pkt`: the loop ends, out of credit or not, or goes on. -/
inductive Turn (P M : Type)
  | stop (waitCredit : Bool) (proxy : P) (io : Io M)
  | next (proxy : P) (io : Io M)

def Receiver.turn (answer : RecvAnswer) (p : P) (io : Io M) : Option (Turn P M) :=
  match io.queue.pop io.mem with
  | none => none
  | some (none, queue) => some (.stop false p { io with queue })
  | some (some head, queue) =>
    match R.fill p head answer { io with queue } with
    | .undo wait p io => some (.stop wait p { io with queue := io.queue.undoPop })
    | .used len pkt p io =>
      let (p, io) := R.place head.index len pkt p io
      some (.next p io)

theorem Receiver.turn_stop {R : Receiver P M} (h : R.turn answer p io = some (.stop wait p' io')) :
    (∃ queue, io.queue.pop io.mem = some (none, queue) ∧ wait = false ∧ p' = p ∧
        io' = { io with queue }) ∨
      ∃ head queue io₁, io.queue.pop io.mem = some (some head, queue) ∧
        R.fill p head answer { io with queue } = .undo wait p' io₁ ∧
        io' = { io₁ with queue := io₁.queue.undoPop } := by
  unfold turn at h
  split at h
  · simp at h
  · next queue hpop =>
    simp only [Option.some.injEq, Turn.stop.injEq] at h
    exact .inl ⟨queue, hpop, h.1.symm, h.2.1.symm, h.2.2.symm⟩
  · next head queue hpop =>
    split at h
    · next hfill =>
      obtain ⟨rfl, rfl, rfl⟩ := h
      exact .inr ⟨head, queue, _, hpop, hfill, rfl⟩
    · simp at h

theorem Receiver.turn_next {R : Receiver P M} (h : R.turn answer p io = some (.next p' io')) :
    ∃ head queue len pkt p₁ io₁, io.queue.pop io.mem = some (some head, queue) ∧
      R.fill p head answer { io with queue } = .used len pkt p₁ io₁ ∧
      R.place head.index len pkt p₁ io₁ = (p', io') := by
  unfold turn at h
  split at h
  · simp at h
  · simp at h
  · next head queue hpop =>
    split at h
    · simp at h
    · next len pkt p₁ io₁ hfill =>
      simp only [Option.some.injEq, Turn.next.injEq] at h
      exact ⟨head, queue, len, pkt, p₁, io₁, hpop, hfill, Prod.ext h.1 h.2⟩

/-- The loop of `recv_pkt`: whether a head was used, and whether the proxy ran out of credit. A
socket that has given all its answers has nothing more to read, and the loop ends. -/
def Receiver.recvLoop (R : Receiver P M) :
    List RecvAnswer → Bool → P → Io M → Option (Bool × Bool × P × Io M)
  | [], haveUsed, p, io =>
    match R.turn (.error eagain) p io with
    | none => none
    | some (.stop wait p io) => some (haveUsed, wait, p, io)
    | some (.next p io) => some (true, false, p, io)
  | answer :: rest, haveUsed, p, io =>
    match R.turn answer p io with
    | none => none
    | some (.stop wait p io) => some (haveUsed, wait, p, io)
    | some (.next p io) => R.recvLoop rest true p io

/-- Every turn of the loop is taken under `C`. -/
def Receiver.LoopAlong (R : Receiver P M) (C : RecvAnswer → P → Io M → Prop) :
    List RecvAnswer → P → Io M → Prop
  | [], p, io => C (.error eagain) p io
  | answer :: rest, p, io =>
    C answer p io ∧ ∀ p' io', R.turn answer p io = some (.next p' io') →
      R.LoopAlong C rest p' io'

instance Receiver.decidableLoopAlong {R : Receiver P M} {C : RecvAnswer → P → Io M → Prop}
    [∀ answer p io, Decidable (C answer p io)] :
    ∀ answers p io, Decidable (R.LoopAlong C answers p io)
  | [], p, io => inferInstanceAs (Decidable (C (.error eagain) p io))
  | answer :: rest, p, io =>
    match h : R.turn answer p io with
    | some (.next p' io') =>
      have := decidableLoopAlong (R := R) (C := C) rest p' io'
      decidable_of_iff (C answer p io ∧ R.LoopAlong C rest p' io')
        ⟨fun hc => ⟨hc.1, fun p₁ io₁ ht => by
          obtain ⟨rfl, rfl⟩ : p' = p₁ ∧ io' = io₁ := by simpa [h] using ht
          exact hc.2⟩, fun hc => ⟨hc.1, hc.2 p' io' h⟩⟩
    | none | some (.stop ..) =>
      decidable_of_iff (C answer p io) ⟨fun hc => ⟨hc, fun p₁ io₁ ht => by simp [h] at ht⟩,
        fun hc => hc.1⟩

theorem Receiver.loopAlong_true (R : Receiver P M) (answers : List RecvAnswer) (p : P)
    (io : Io M) : R.LoopAlong (fun _ _ _ => True) answers p io := by
  induction answers generalizing p io with
  | nil => trivial
  | cons answer rest ih => exact ⟨trivial, fun p' io' _ => ih p' io'⟩

/-- The invariant rule of the loop: `I` holds before every turn, `J` when the loop has ended. -/
theorem Receiver.recvLoop_rule {R : Receiver P M} {C : RecvAnswer → P → Io M → Prop}
    {I : P → Io M → Prop} {J : Bool → P → Io M → Prop} (hend : ∀ p io, I p io → J false p io)
    (hstop : ∀ answer p io wait p' io', I p io → C answer p io →
      R.turn answer p io = some (.stop wait p' io') → J wait p' io')
    (hnext : ∀ answer p io p' io', I p io → C answer p io →
      R.turn answer p io = some (.next p' io') → I p' io')
    {answers : List RecvAnswer} {haveUsed haveUsed' : Bool} (hI : I p io)
    (hC : R.LoopAlong C answers p io)
    (h : R.recvLoop answers haveUsed p io = some (haveUsed', wait, p', io')) : J wait p' io' := by
  induction answers generalizing p io haveUsed with
  | nil =>
    rw [recvLoop] at h
    split at h
    · simp at h
    · next hturn =>
      cases h
      exact hstop _ _ _ _ _ _ hI hC hturn
    · next hturn =>
      cases h
      exact hend _ _ (hnext _ _ _ _ _ hI hC hturn)
  | cons answer rest ih =>
    rw [recvLoop] at h
    split at h
    · simp at h
    · next hturn =>
      cases h
      exact hstop _ _ _ _ _ _ hI hC.1 hturn
    · next hturn => exact ih (hnext _ _ _ _ _ hI hC.1 hturn) (hC.2 _ _ hturn) h

end Shelter.Vsock
