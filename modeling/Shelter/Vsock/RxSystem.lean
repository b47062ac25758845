import Shelter.Lib.Run
import Shelter.Virtio.QueueFifo
import Shelter.Vsock.Proxies

/-!
# The users of the RX queue

Six calls pop from the RX queue of the vsock device: `push_packet`, the `recv_pkt` of the three
kinds of proxies, `process_stream_rx` and, on macOS, `send_time`. Each holds the lock of the queue
from its first pop to its end, and they run on several threads. The guest does not know the lock:
it may write to memory between any two accesses of the device.

`RxSystem.step` has one event for each access to what is shared: a pop of the queue, the filling
of a packet, a call of `add_used`, and the accesses to the queue of the muxer, which has a lock of
its own. A `push_packet` that finds no buffer holds no lock until it takes that one, so its message
is then in neither queue.

Messages are numbered in the order in which their calls took the lock of the RX queue, and `uses`
records for every element of the used ring which message its buffer was filled with.
-/

open Bytes Run

namespace Shelter.Vsock

open Virtio VsockPacket History

variable {M : Type} [GuestMemory M]

/-! ## Calls -/

/-- A call that takes the lock of the RX queue. -/
inductive RxCall
  | pushPacket (rx : MuxerRx)
  | recvStream (c : StreamConn)
  | recvUdp (p : UdpProxy)
  | processStreamRx
  | sendTime (time : U64)

namespace RxCall

def message? : RxCall → Option MuxerRx
  | pushPacket rx => some rx
  | _ => none

/-- Whether the call goes on to the next head after it has used one. -/
def loops : RxCall → Bool
  | pushPacket _ | sendTime _ => false
  | recvStream _ | recvUdp _ | processStreamRx => true

theorem message?_of_loops {c : RxCall} (h : c.loops = true) : c.message? = none := by
  cases c with
  | pushPacket => exact Bool.noConfusion h
  | _ => rfl

end RxCall

/-- How a message came into an RX buffer: at once, or through the queue of the muxer. -/
inductive Route
  | direct
  | queued
  deriving DecidableEq, Repr

/-- A message on its way into a buffer, with its number. -/
structure Carried where
  num : ℕ
  rx : MuxerRx
  route : Route
  deriving DecidableEq, Repr

/-- A call that holds the lock. If it is a push, `num` is the number of its message. -/
structure Holder where
  call : RxCall
  num : ℕ

def Holder.message (h : Holder) : Option Carried :=
  h.call.message?.map fun rx => ⟨h.num, rx, .direct⟩

theorem Holder.message_of_loops {h : Holder} (hl : h.call.loops = true) : h.message = none := by
  rw [Holder.message, RxCall.message?_of_loops hl]
  rfl

/-- Where the holder of the lock of the RX queue is: about to pop, with a head in hand, in
`recv_pkt` of the muxer after it saw a message waiting, or about to put the head in the used
ring. -/
inductive RxLock
  | free
  | locked (h : Holder)
  | inHand (h : Holder) (head : DescriptorChain)
  | taking (h : Holder) (head : DescriptorChain) (pkt : VsockPacket)
  | filled (h : Holder) (head : U16) (len : U32) (msg : Option Carried)

namespace RxLock

def message : RxLock → Option Carried
  | free | taking .. => none
  | locked h | inHand h _ => h.message
  | filled _ _ _ msg => msg

def heads : RxLock → List U16
  | free | locked _ => []
  | inHand _ head | taking _ head _ => [head.index]
  | filled _ head _ _ => [head]

end RxLock

/-! ## Filling a packet -/

def tsyncPort : U32 := 123

/-- The packet of `send_time`. -/
def timeToPkt (cid time : U64) (pkt : VsockPacket) (m : M) : M :=
  m |> pkt.setOp vsockOpRw |> pkt.setSrcCid vsockHostCid |> pkt.setDstCid cid
    |> pkt.setSrcPort tsyncPort |> pkt.setDstPort tsyncPort |> pkt.setType vsockTypeDgram
    |> pkt.writeTimeSync time |> pkt.setLen (BitVec.ofNat 32 pkt.bufSize)

inductive OnHead (M : Type)
  /-- neither use nor undo it -/
  | leak
  | undo
  /-- put it in the used ring; the loop, if there is one, goes on as `call` -/
  | use (call : RxCall) (mem : M) (len : U32)
  /-- fill it with the next message of the muxer -/
  | take (pkt : VsockPacket)

/-- A turn of the loop of `recv_pkt` of a proxy. -/
def OnHead.ofResult {P : Type} (R : Receiver P M) (call : P → RxCall) : HeadResult P M → OnHead M
  | .undo .. => .undo
  | .used len _ p io => .use (call (R.count p len)) io.mem (BitVec.ofNat 32 len)

/-- The call with a head it has popped. `recv_pkt` of the muxer looks twice at the queue of the
muxer; this is the first time. -/
def RxCall.onHead (cid : U64) (s : RxSide M) (head : DescriptorChain) (answer : RecvAnswer) :
    RxCall → OnHead M
  | pushPacket rx =>
    match fromRxVirtqHead head s.mem with
    | .ok pkt =>
      let mem := rxToPkt cid rx pkt s.mem
      .use (pushPacket rx) mem (pkt.usedLen mem)
    | .error _ => .leak
  | recvStream c => .ofResult StreamConn.receiver recvStream (c.fill head answer (.start s))
  | recvUdp p => .ofResult UdpProxy.receiver recvUdp (p.fill head answer (.start s))
  | processStreamRx =>
    match fromRxVirtqHead head s.mem with
    | .ok pkt => if s.rxq.isEmpty then .undo else .take pkt
    | .error _ => .use processStreamRx s.mem 0
  | sendTime time =>
    match fromRxVirtqHead head s.mem with
    | .ok pkt =>
      let mem := timeToPkt cid time pkt s.mem
      .use (sendTime time) mem (pkt.usedLen mem)
    | .error _ => .leak

/-! ## The system -/

/-- The RX side of the device, and what has happened on it. -/
structure RxSystem (M : Type) where
  hist : History M
  rxq : MuxerRxQ
  lock : RxLock
  /-- the messages of calls that found no buffer and have yet to take the lock of `rxq` -/
  between : List ℕ
  /-- the messages handed to `push_packet` -/
  pushed : List MuxerRx
  /-- the message in each buffer of the used ring, if there is one -/
  uses : List (Option Carried)
  /-- the messages in `rxq` -/
  waiting : List ℕ
  /-- the messages `rxq` accepted -/
  accepted : List ℕ
  /-- the messages `rxq` refused, each with the number of those that waited then -/
  refused : List (ℕ × ℕ)

/-- An access of the device, or writes of the guest with the heads they publish. -/
inductive RxEvent
  | guest (heads : List U16) (writes : List (ℕ × List Byte))
  | lock (call : RxCall)
  | pop
  | fill (answer : RecvAnswer)
  | take
  | use
  | enqueue (num : ℕ)

def RxEvent.isGuest : RxEvent → Bool
  | guest .. => true
  | _ => false

def guestWrite (m : M) (writes : List (ℕ × List Byte)) : M :=
  writes.foldl (fun m w => (writeSlice m w.1 w.2).1) m

namespace RxSystem

def start (q : Queue) (m : M) : RxSystem M :=
  ⟨.start q m, .new, .free, [], [], [], [], [], []⟩

/-- The part of the state that `push_packet` acts on. -/
def side (s : RxSystem M) : RxSide M := ⟨s.hist.queue, s.hist.mem, s.rxq⟩

def placed (s : RxSystem M) : List Carried := s.uses.reduceOption

def nextPacket (s : RxSystem M) : Option VsockPacket :=
  match s.lock with
  | .inHand _ head => (fromRxVirtqHead head s.hist.mem).toOption
  | .taking _ _ pkt => some pkt
  | _ => none

/-- The second look of `recv_pkt` of the muxer at its queue. -/
def takeMessage (cid : U64) (h : Holder) (head : DescriptorChain) (pkt : VsockPacket)
    (s : RxSystem M) : RxSystem M :=
  match s.rxq.pop with
  | (some rx, rxq) =>
    let mem := rxToPkt cid rx pkt s.hist.mem
    { s with
      hist := { s.hist with mem }, rxq, waiting := s.waiting.tail
      lock := .filled h head.index (pkt.usedLen mem) (s.waiting.head?.map (⟨·, rx, .queued⟩)) }
  | (none, rxq) =>
    { s with rxq, lock := .filled h head.index (pkt.usedLen s.hist.mem) none }

/-- `push_packet` after it has taken the lock of the queue of the muxer. -/
def enqueue (num : ℕ) (rx : MuxerRx) (s : RxSystem M) : RxSystem M :=
  match s.rxq.push rx with
  | (true, rxq) =>
    { s with
      rxq, between := s.between.erase num, waiting := s.waiting ++ [num]
      accepted := s.accepted ++ [num] }
  | (false, rxq) =>
    { s with
      rxq, between := s.between.erase num, refused := s.refused ++ [(num, s.rxq.q.length)] }

/-- One access; `none` if no thread is there to make it, or if it panics. An error of `add_used`
is only logged. -/
def step (cid : U64) (s : RxSystem M) : RxEvent → Option (RxSystem M)
  | .guest heads writes =>
    some { s with hist := s.hist.driverPublish heads (guestWrite s.hist.mem writes) }
  | .lock call =>
    match s.lock with
    | .free => some { s with
        lock := .locked ⟨call, s.pushed.length⟩, pushed := s.pushed ++ call.message?.toList }
    | _ => none
  | .pop =>
    match s.lock with
    | .locked h =>
      match s.hist.queue.pop s.hist.mem with
      | none => none
      | some (none, _) => some { s with
          hist := s.hist.devicePop, lock := .free
          between := s.between ++ h.message.toList.map Carried.num }
      | some (some head, _) => some { s with hist := s.hist.devicePop, lock := .inHand h head }
    | _ => none
  | .fill answer =>
    match s.lock with
    | .inHand h head =>
      match h.call.onHead cid s.side head answer with
      | .leak => some { s with lock := .free }
      | .undo => some { s with hist := s.hist.deviceUndoPop, lock := .free }
      | .use call mem len => some { s with
          hist := { s.hist with mem }, lock := .filled { h with call } head.index len h.message }
      | .take pkt => some { s with lock := .taking h head pkt }
    | _ => none
  | .take =>
    match s.lock with
    | .taking h head pkt => some (s.takeMessage cid h head pkt)
    | _ => none
  | .use =>
    match s.lock with
    | .filled h head len msg => some { s with
        hist := s.hist.deviceAddUsed head len
        uses := if (s.hist.queue.addUsed s.hist.mem head len).1 = .ok () then s.uses ++ [msg]
          else s.uses
        lock := if h.call.loops then .locked h else .free }
    | _ => none
  | .enqueue num =>
    match s.pushed[num]? with
    | some rx => if num ∈ s.between then some (s.enqueue num rx) else none
    | none => none

end RxSystem

/-! ## What a call writes -/

section Writes

variable [LawfulGuestMemory M] {cid : U64} {s : RxSide M} {head : DescriptorChain}
  {answer : RecvAnswer}

theorem guestWrite_layout (m : M) (writes : List (ℕ × List Byte)) :
    SameLayout m (guestWrite m writes) := by
  induction writes generalizing m with
  | nil => exact .refl m
  | cons w ws ih =>
    have hw : SameLayout m (writeSlice m w.1 w.2).1 := fun x =>
      LawfulGuestMemory.writeSlice_find ..
    exact hw.trans (ih _)

variable {pkt : VsockPacket} {io io' : Io M} {len : ℕ} {P : Type}

theorem received_within {m : M} {buf : ℕ} {bs : List Byte} (hbuf : pkt.buf = some buf)
    (hle : bs.length ≤ pkt.bufSize) : pkt.Within m (writeSlice m buf bs).1 :=
  (VsockPacket.Within.refl pkt m).store fun _ hx =>
    .inr ⟨buf, hbuf, hx.mono le_rfl (by omega)⟩

theorem StreamConn.fill_within {c c' : StreamConn}
    (h : c.fill head answer io = .used len pkt c' io') :
    fromRxVirtqHead head io.mem = .ok pkt ∧ pkt.Within io.mem io'.mem := by
  obtain ⟨buf, bs, hpkt, hbuf, _, hfits, _, _, _, _, rfl⟩ := fill_used h
  exact ⟨hpkt, (((((((((received_within hbuf hfits).set ..).set ..).set ..).set ..).set ..).set
    ..).set ..).set ..).set ..⟩

theorem UdpProxy.fill_within {p p' : UdpProxy} (h : p.fill head answer io = .used len pkt p' io') :
    fromRxVirtqHead head io.mem = .ok pkt ∧ pkt.Within io.mem io'.mem := by
  obtain ⟨buf, bs, hpkt, hbuf, hfits, rfl⟩ := fill_used h
  exact ⟨hpkt, (((((((((received_within hbuf hfits).set ..).set ..).set ..).set ..).set ..).set
    ..).set ..).set ..).set ..⟩

theorem timeToPkt_within (cid time : U64) (pkt : VsockPacket) (m : M) :
    pkt.Within m (timeToPkt cid time pkt m) :=
  ((((((((VsockPacket.Within.refl pkt m).set ..).set ..).set ..).set ..).set ..).set ..).writeBuf
    (by simp)).set ..

/-- What a call does with a head, and what it knows when it does so. -/
theorem RxCall.onHead_spec (cid : U64) (s : RxSide M) (head : DescriptorChain)
    (answer : RecvAnswer) (call : RxCall) :
    match call.onHead cid s head answer with
    | .leak => call.loops = false ∧ ∃ e, fromRxVirtqHead head s.mem = .error e
    | .undo => call.loops = true
    | .use call' mem _ => call'.loops = call.loops ∧
        (mem = s.mem ∨ ∃ pkt, fromRxVirtqHead head s.mem = .ok pkt ∧ pkt.Within s.mem mem)
    | .take pkt => call = processStreamRx ∧ fromRxVirtqHead head s.mem = .ok pkt ∧
        s.rxq.isEmpty = false := by
  cases call with
  | pushPacket rx =>
    simp only [onHead]
    cases hpkt : fromRxVirtqHead head s.mem with
    | ok pkt => exact ⟨rfl, .inr ⟨pkt, rfl, rxToPkt_within cid rx pkt s.mem⟩⟩
    | error e => exact ⟨rfl, e, rfl⟩
  | recvStream c =>
    simp only [onHead]
    cases hfill : c.fill head answer (.start s) with
    | undo => exact rfl
    | used len pkt c' io => exact And.intro rfl (.inr ⟨pkt, StreamConn.fill_within hfill⟩)
  | recvUdp p =>
    simp only [onHead]
    cases hfill : p.fill head answer (.start s) with
    | undo => exact rfl
    | used len pkt p' io => exact And.intro rfl (.inr ⟨pkt, UdpProxy.fill_within hfill⟩)
  | processStreamRx =>
    simp only [onHead]
    cases hpkt : fromRxVirtqHead head s.mem with
    | ok pkt =>
      cases s.rxq.isEmpty with
      | true => simp [loops]
      | false => simp
    | error e => exact ⟨rfl, .inl rfl⟩
  | sendTime time =>
    simp only [onHead]
    cases hpkt : fromRxVirtqHead head s.mem with
    | ok pkt => exact ⟨rfl, .inr ⟨pkt, rfl, timeToPkt_within cid time pkt s.mem⟩⟩
    | error e => exact ⟨rfl, e, rfl⟩

end Writes

/-! ## What an event does -/

/-- The effects of the events of `step`, each with what is known when it occurs. -/
inductive Access (cid : U64) (s : RxSystem M) : RxEvent → RxSystem M → Prop
  | guest (heads : List U16) (writes : List (ℕ × List Byte)) : Access cid s (.guest heads writes)
      { s with hist := s.hist.driverPublish heads (guestWrite s.hist.mem writes) }
  | lock (call : RxCall) : s.lock = .free → Access cid s (.lock call)
      { s with
        lock := .locked ⟨call, s.pushed.length⟩, pushed := s.pushed ++ call.message?.toList }
  | popEmpty (h : Holder) (q : Queue) : s.lock = .locked h →
      s.hist.queue.pop s.hist.mem = some (none, q) → Access cid s .pop
      { s with
        hist := s.hist.devicePop, lock := .free
        between := s.between ++ h.message.toList.map Carried.num }
  | pop (h : Holder) (head : DescriptorChain) (q : Queue) : s.lock = .locked h →
      s.hist.queue.pop s.hist.mem = some (some head, q) → Access cid s .pop
      { s with hist := s.hist.devicePop, lock := .inHand h head }
  | leak (h : Holder) (head : DescriptorChain) (answer : RecvAnswer) (e : VsockError) :
      s.lock = .inHand h head → h.call.loops = false →
      fromRxVirtqHead head s.hist.mem = .error e → Access cid s (.fill answer)
      { s with lock := .free }
  | undo (h : Holder) (head : DescriptorChain) (answer : RecvAnswer) :
      s.lock = .inHand h head → h.call.loops = true → Access cid s (.fill answer)
      { s with hist := s.hist.deviceUndoPop, lock := .free }
  | fill (h : Holder) (head : DescriptorChain) (answer : RecvAnswer) (call : RxCall) (mem : M)
      (len : U32) : s.lock = .inHand h head → call.loops = h.call.loops →
      (mem = s.hist.mem ∨ ∃ pkt, fromRxVirtqHead head s.hist.mem = .ok pkt ∧
        pkt.Within s.hist.mem mem) → Access cid s (.fill answer)
      { s with
        hist := { s.hist with mem }, lock := .filled { h with call } head.index len h.message }
  | look (h : Holder) (head : DescriptorChain) (answer : RecvAnswer) (pkt : VsockPacket) :
      s.lock = .inHand h head → h.call = .processStreamRx →
      fromRxVirtqHead head s.hist.mem = .ok pkt → s.rxq.isEmpty = false →
      Access cid s (.fill answer) { s with lock := .taking h head pkt }
  | take (h : Holder) (head : DescriptorChain) (pkt : VsockPacket) :
      s.lock = .taking h head pkt → Access cid s .take (s.takeMessage cid h head pkt)
  | use (h : Holder) (head : U16) (len : U32) (msg : Option Carried) :
      s.lock = .filled h head len msg → Access cid s .use
      { s with
        hist := s.hist.deviceAddUsed head len
        uses := if (s.hist.queue.addUsed s.hist.mem head len).1 = .ok () then s.uses ++ [msg]
          else s.uses
        lock := if h.call.loops then .locked h else .free }
  | enqueue (num : ℕ) (rx : MuxerRx) : s.pushed[num]? = some rx → num ∈ s.between →
      Access cid s (.enqueue num) (s.enqueue num rx)

theorem access_of_step [LawfulGuestMemory M] {cid : U64} {s s' : RxSystem M} {e : RxEvent}
    (h : s.step cid e = some s') : Access cid s e s' := by
  cases e with
  | guest heads writes =>
    cases h
    exact .guest heads writes
  | lock call =>
    simp only [RxSystem.step] at h
    split at h <;> cases h
    exact .lock call ‹_›
  | pop =>
    simp only [RxSystem.step] at h
    split at h <;> [skip; cases h]
    next hld hl =>
    split at h <;> cases h
    · exact .popEmpty hld _ hl ‹_›
    · exact .pop hld _ _ hl ‹_›
  | fill answer =>
    simp only [RxSystem.step] at h
    split at h <;> [skip; cases h]
    next hld head hl =>
    have hspec := hld.call.onHead_spec cid s.side head answer
    split at h <;> cases h <;> rename_i hon <;> rw [hon] at hspec
    · obtain ⟨hloop, e, he⟩ := hspec
      exact .leak hld head answer e hl hloop he
    · exact .undo hld head answer hl hspec
    · exact .fill hld head answer _ _ _ hl hspec.1 hspec.2
    · exact .look hld head answer _ hl hspec.1 hspec.2.1 hspec.2.2
  | take =>
    simp only [RxSystem.step] at h
    split at h <;> cases h
    exact .take _ _ _ ‹_›
  | use =>
    simp only [RxSystem.step] at h
    split at h <;> cases h
    exact .use _ _ _ _ ‹_›
  | enqueue num =>
    simp only [RxSystem.step] at h
    split at h <;> [split_ifs at h with hmem; skip] <;> cases h
    exact .enqueue num _ ‹_› hmem

/-! ## Heads in hand are used -/

/-- The rings are mapped, a head in hand is one of the table, and `uses` goes with the used
ring. -/
structure Recorded (s : RxSystem M) : Prop where
  rings : s.hist.queue.RingsMapped s.hist.mem
  inTable : ∀ i ∈ s.lock.heads, i < s.hist.queue.size
  uses : s.uses.length = s.hist.used.length

namespace Recorded

variable {s s' : RxSystem M} {cid : U64} {e : RxEvent} {q : Queue} {hld : Holder}

theorem start {m : M} (h : q.RingsMapped m) : Recorded (RxSystem.start q m) :=
  ⟨h, fun i hi => by simp [RxSystem.start, RxLock.heads] at hi, rfl⟩

theorem congr (h : Recorded s) (hq : Queue.SameConfig s.hist.queue s'.hist.queue)
    (hm : SameLayout s.hist.mem s'.hist.mem) (hh : s'.lock.heads = s.lock.heads ∨
      s'.lock.heads = []) (hu : s'.uses = s.uses) (hused : s'.hist.used = s.hist.used) :
    Recorded s' where
  rings := h.rings.congr hq hm
  inTable i hi := by
    rw [hq.size]
    rcases hh with hh | hh
    · exact h.inTable i (hh ▸ hi)
    · simp [hh] at hi
  uses := by rw [hu, hused, h.uses]

theorem pop (h : Recorded s) {head : DescriptorChain}
    (hpop : s.hist.queue.pop s.hist.mem = some (some head, q)) :
    Recorded { s with hist := s.hist.devicePop, lock := .inHand hld head } where
  rings := h.rings.congr s.hist.devicePop_config (by rw [devicePop_mem]; exact .refl _)
  inTable i hi := by
    obtain rfl : i = head.index := by simpa [RxLock.heads] using hi
    rw [s.hist.devicePop_config.size]
    obtain he | ⟨c, he, hlt⟩ := Queue.pop_cases hpop
    · simp at he
    · simp only [Prod.mk.injEq, Option.some.injEq] at he
      rw [he.1]
      exact hlt
  uses := by
    show s.uses.length = s.hist.devicePop.used.length
    rw [devicePop_used]
    exact h.uses

variable [LawfulGuestMemory M]

theorem addUsed_ok (h : Recorded s) {head : U16} {len : U32} {msg : Option Carried}
    (hl : s.lock = .filled hld head len msg) :
    ∃ m₂, s.hist.queue.addUsed s.hist.mem head len = (.ok (), s.hist.queue.bumpUsed, m₂) ∧
      SameLayout s.hist.mem m₂ := by
  have hlt : head < s.hist.queue.size :=
    h.inTable head (by rw [hl]; exact List.mem_singleton_self _)
  obtain ⟨m₂, hadd, hlayout, -⟩ := Queue.addUsed_run h.rings hlt len
  exact ⟨m₂, hadd, hlayout⟩

theorem step (h : Recorded s) (hs : s.step cid e = some s') : Recorded s' := by
  cases access_of_step hs with
  | guest heads writes =>
    exact h.congr (.refl _) (guestWrite_layout _ _) (.inl rfl) rfl rfl
  | lock | leak => exact h.congr (.refl _) (.refl _) (.inr rfl) rfl rfl
  | popEmpty hld q hl hpop =>
    exact h.congr s.hist.devicePop_config (by rw [devicePop_mem]; exact .refl _)
      (.inr rfl) rfl s.hist.devicePop_used
  | pop hld head q hl hpop => exact h.pop hpop
  | undo hld head answer hl =>
    exact h.congr (.withNextAvail _ _) (.refl _) (.inr rfl) rfl rfl
  | fill hld head answer call mem len hl hloop hmem =>
    refine h.congr (.refl _) ?_ (.inl (by rw [hl]; rfl)) rfl rfl
    rcases hmem with rfl | ⟨pkt, _, hw⟩
    · exact .refl _
    · exact hw.layout
  | look hld head answer pkt hl =>
    exact h.congr (.refl _) (.refl _) (.inl (by rw [hl]; rfl)) rfl rfl
  | take hld head pkt hl =>
    unfold RxSystem.takeMessage
    split
    · exact h.congr (.refl _) (rxToPkt_within ..).layout (.inl (by rw [hl]; rfl)) rfl rfl
    · exact h.congr (.refl _) (.refl _) (.inl (by rw [hl]; rfl)) rfl rfl
  | use hld head len msg hl =>
    obtain ⟨m₂, hadd, hlay⟩ := h.addUsed_ok hl
    rw [deviceAddUsed_ok hadd, hadd]
    refine ⟨h.rings.congr (.bumpUsed _) hlay, fun i hi => ?_, by simp [h.uses]⟩
    split_ifs at hi <;> simp [RxLock.heads] at hi
  | enqueue num rx hrx hn =>
    unfold RxSystem.enqueue
    split <;> exact h.congr (.refl _) (.refl _) (.inl rfl) rfl rfl

end Recorded

/-! ## Calls without interruption

The definitions of `push_packet` and of a turn of `recv_pkt` that the proxies use make all accesses
of a call at once. The system does the same if nothing comes between them. -/

def Turn.side {P : Type} : Turn P M → RxSide M
  | .stop _ _ io | .next _ io => io.toRxSide

/-- A turn ends the call, or the call goes on with the next pop. -/
def Turn.lock {P : Type} (call : P → RxCall) (n : ℕ) : Turn P M → RxLock
  | .stop .. => .free
  | .next p _ => .locked ⟨call p, n⟩

/-- Accesses of the device, one after the other, leave this side and this lock. -/
def Reaches (cid : U64) (s : RxSystem M) (side : RxSide M) (lock : RxLock) : Prop :=
  ∃ es, es.any RxEvent.isGuest = false ∧
    (run (RxSystem.step cid) s es).map (fun s => (s.side, s.lock)) = some (side, lock)

section Uninterrupted

variable {cid : U64} {s : RxSystem M}

theorem reaches_pushPacket {rx : MuxerRx} {side' : RxSide M} (hl : s.lock = .free)
    (h : pushPacket cid rx s.side = some side') : Reaches cid s side' .free := by
  unfold pushPacket at h
  split at h
  · simp at h
  · next head queue hpop =>
    replace hpop : s.hist.queue.pop s.hist.mem = some (some head, queue) := hpop
    rw [pushTo, show s.side.mem = s.hist.mem from rfl] at h
    cases hpkt : fromRxVirtqHead head s.hist.mem <;> rw [hpkt] at h <;> cases h
    case ok pkt =>
      refine ⟨[.lock (.pushPacket rx), .pop, .fill (.error eagain), .use], rfl, ?_⟩
      simp [run_cons, RxSystem.step, hl, hpop, RxCall.onHead, RxSystem.side, devicePop,
        hpkt, deviceAddUsed_queue_mem, RxCall.loops]
    case error e =>
      refine ⟨[.lock (.pushPacket rx), .pop, .fill (.error eagain)], rfl, ?_⟩
      simp [run_cons, RxSystem.step, hl, hpop, RxCall.onHead, RxSystem.side, devicePop,
        hpkt]
  · next queue hpop =>
    replace hpop : s.hist.queue.pop s.hist.mem = some (none, queue) := hpop
    refine ⟨[.lock (.pushPacket rx), .pop, .enqueue s.pushed.length], rfl, ?_⟩
    cases h
    cases hpush : s.rxq.push rx with
    | mk ok rxq =>
      cases ok <;> simp [run_cons, RxSystem.step, hl, hpop, RxSystem.side, devicePop,
        Holder.message, RxCall.message?, RxSystem.enqueue, hpush]

variable {n : ℕ} {answer : RecvAnswer}

/-- A turn of the loop of `recv_pkt` that uses a head, and one that does not. -/
theorem reaches_turn {P : Type} {R : Receiver P M} {call : P → RxCall} {p : P}
    (hl : s.lock = .locked ⟨call p, n⟩) (hloops : ∀ p, (call p).loops = true)
    (hcall : ∀ side head, (call p).onHead cid side head answer =
      .ofResult R call (R.fill p head answer (.start side)))
    (hundo : ∀ head io wait p' io', R.fill p head answer io = .undo wait p' io' → io' = io)
    (hused : ∀ head io len pkt p' io', R.fill p head answer io = .used len pkt p' io' →
      io'.queue = io.queue ∧ io'.rxq = io.rxq)
    {t : Turn P M} (h : R.turn answer p (.start s.side) = some t) :
    Reaches cid s t.side (t.lock call n) := by
  cases t with
  | stop wait p' io' =>
    obtain ⟨queue, hpop, _, _, rfl⟩ | ⟨head, queue, io₁, hpop, hfill, rfl⟩ := Receiver.turn_stop h
    · replace hpop : s.hist.queue.pop s.hist.mem = some (none, queue) := hpop
      refine ⟨[.pop], rfl, ?_⟩
      simp [run_cons, RxSystem.step, hl, hpop, RxSystem.side, devicePop, Io.start,
        Turn.side, Turn.lock]
    · replace hpop : s.hist.queue.pop s.hist.mem = some (some head, queue) := hpop
      obtain rfl := hundo _ _ _ _ _ hfill
      replace hfill : R.fill p head answer (.start ⟨queue, s.hist.mem, s.rxq⟩) = _ := hfill
      have hon := hcall ⟨queue, s.hist.mem, s.rxq⟩ head
      rw [hfill, OnHead.ofResult] at hon
      refine ⟨[.pop, .fill answer], rfl, ?_⟩
      simp [run_cons, RxSystem.step, hl, hpop, RxSystem.side, devicePop, hon,
        deviceUndoPop, Io.start, Turn.side, Turn.lock]
  | next p' io' =>
    obtain ⟨head, queue, len, pkt, p₁, io₁, hpop, hfill, hplace⟩ := Receiver.turn_next h
    replace hpop : s.hist.queue.pop s.hist.mem = some (some head, queue) := hpop
    obtain ⟨hqueue, hrxq⟩ := hused _ _ _ _ _ _ hfill
    replace hfill : R.fill p head answer (.start ⟨queue, s.hist.mem, s.rxq⟩) = _ := hfill
    have hon := hcall ⟨queue, s.hist.mem, s.rxq⟩ head
    rw [hfill, OnHead.ofResult] at hon
    obtain rfl : _ = io' := congrArg Prod.snd hplace
    obtain rfl : _ = p' := congrArg Prod.fst hplace
    refine ⟨[.pop, .fill answer, .use], rfl, ?_⟩
    simp [run_cons, RxSystem.step, hl, hpop, RxSystem.side, devicePop, hon, hloops,
      deviceAddUsed_queue_mem, Receiver.place, hqueue, hrxq, Io.start, Turn.side, Turn.lock]

/-- **Calls as accesses.** What a call of `push_packet`, or a turn of `recv_pkt` of a stream or of a
UDP proxy, does to the queue, to guest memory and to the queue of the muxer is what some accesses of
the system do, and they leave the lock as the call does. -/
theorem calls_reached (cid : U64) (s : RxSystem M) :
    (∀ rx side', s.lock = .free → pushPacket cid rx s.side = some side' →
      Reaches cid s side' .free) ∧
    (∀ c n answer t, s.lock = .locked ⟨.recvStream c, n⟩ →
      StreamConn.receiver.turn answer c (.start s.side) = some t →
      Reaches cid s t.side (t.lock .recvStream n)) ∧
    (∀ p n answer t, s.lock = .locked ⟨.recvUdp p, n⟩ →
      UdpProxy.receiver.turn answer p (.start s.side) = some t →
      Reaches cid s t.side (t.lock .recvUdp n)) := by
  refine ⟨fun rx side' hl h => reaches_pushPacket hl h, fun c n answer t hl h => ?_,
    fun p n answer t hl h => ?_⟩
  · refine reaches_turn hl (fun _ => rfl) (fun _ _ => rfl)
      (fun _ _ _ _ _ hf => (StreamConn.fill_undo hf).1) (fun head io len pkt p' io' hf => ?_) h
    obtain ⟨_, _, _, _, _, _, _, _, _, _, rfl⟩ := StreamConn.fill_used hf
    exact ⟨rfl, rfl⟩
  · refine reaches_turn hl (fun _ => rfl) (fun _ _ => rfl)
      (fun _ _ _ _ _ hf => UdpProxy.fill_undo hf) (fun head io len pkt p' io' hf => ?_) h
    obtain ⟨_, _, _, _, _, rfl⟩ := UdpProxy.fill_used hf
    exact ⟨rfl, rfl⟩

end Uninterrupted

/-! Two RX buffers, of which the first may be read-only, and a driver that publishes them. -/

def twoBuffers (writable : Bool) : FlatMemory :=
  let flags := if writable then virtqDescFWrite else 0
  (smallMemory.put 0 (Descriptor.toBytes ⟨0x100, 64, flags, 0⟩)).put 16
    (Descriptor.toBytes ⟨0x140, 64, virtqDescFWrite, 0⟩)

def bothPublished : ℕ × List Byte := (0x82, leBytes 2 2 ++ leBytes 2 0 ++ leBytes 2 1)

def published : RxSystem FlatMemory :=
  .start smallQueue (guestWrite (twoBuffers true) [bothPublished])

def openConn : StreamConn := ⟨1, 3, 1025, 1030, 0, 4, .connected, 0, 0, 0, 64, 0, 0⟩

/-- A message, the data of a stream and those of a UDP proxy each take the first buffer. -/
theorem calls_reached_published :
    (∃ side', side'.queue.nextUsed = 1 ∧ Reaches 3 published side' .free) ∧
    (∃ t : Turn StreamConn FlatMemory, t.side.queue.nextUsed = 1 ∧
      Reaches 3 { published with lock := .locked ⟨.recvStream openConn, 0⟩ } t.side
        (t.lock .recvStream 0)) ∧
    ∃ t : Turn UdpProxy FlatMemory, t.side.queue.nextUsed = 1 ∧
      Reaches 3 { published with lock := .locked ⟨.recvUdp (.new 1 3 1030 4), 0⟩ } t.side
        (t.lock .recvUdp 0) := by
  have hpush : (pushPacket 3 (.reset 1 2) published.side).map (fun side => side.queue.nextUsed) =
      some 1 := by decide +kernel
  have hstream : (StreamConn.receiver.turn (.ok [1, 2, 3]) openConn (.start published.side)).map
      (fun t => t.side.queue.nextUsed) = some 1 := by decide +kernel
  have hudp : (UdpProxy.receiver.turn (.ok [1, 2, 3]) (.new 1 3 1030 4)
      (.start published.side)).map (fun t => t.side.queue.nextUsed) = some 1 := by decide +kernel
  obtain ⟨side', hside, hused⟩ := Option.map_eq_some_iff.mp hpush
  obtain ⟨t, ht, hstream⟩ := Option.map_eq_some_iff.mp hstream
  obtain ⟨t', ht', hudp⟩ := Option.map_eq_some_iff.mp hudp
  exact ⟨⟨side', hused, (calls_reached 3 published).1 _ _ rfl hside⟩,
    ⟨t, hstream, (calls_reached 3 _).2.1 _ _ _ _ rfl ht⟩,
    ⟨t', hudp, (calls_reached 3 _).2.2 _ _ _ _ rfl ht'⟩⟩

def pushEvents (rx : MuxerRx) : List RxEvent :=
  [.lock (.pushPacket rx), .pop, .fill (.error eagain), .use]

end Shelter.Vsock
