import Shelter.Net.Tx
import Shelter.Virtio.Segments

/-!
# The receive side of the net worker

Frames come from the backend and go, behind a header of 12 zero bytes, into chains of the receive
queue. A frame for which no chain was found is held back; until it is delivered no other frame is
read. Both the event of the queue and that of the socket lead to `process_rx`, with the
notifications of the queue disabled and enabled around it in two different orders.

The steps of the model are those that the guest can come between; one attempt to put the frame into
a chain is a step. What `read_frame` delivers is part of the step. The model keeps a list of the
frames that were read and of the chains that were returned beside the state.
-/

open Bytes

namespace Shelter.Net

open Virtio

variable {M : Type} [GuestMemory M]

inductive FrontendError
  | emptyQueue
  | readOnlyDescriptor
  | guestMemory
  | descriptorChainTooSmall
  | queueError
  deriving DecidableEq, Repr

/-! ## Putting a frame into a chain -/

/-- The loop of `write_frame_to_guest_impl`, with what is left of the frame. The chain is followed
in the memory as it is after each write; the fuel is not used up (see `ttl`). -/
def writeChain : ℕ → M → List Byte → Option DescriptorChain → M × Except FrontendError (List Byte)
  | fuel + 1, m, slice, some d =>
    if slice.isEmpty then (m, .ok slice)
    else if !d.isWriteOnly then (m, .error .readOnlyDescriptor)
    else
      let len := min slice.length d.len.toNat
      match writeSlice m d.addr.toNat (slice.take len) with
      | (m', true) => writeChain fuel m' (slice.drop len) (d.nextDescriptor m')
      | (m', false) => (m', .error .guestMemory)
  | _, m, slice, _ => (m, .ok slice)

/-- A frame that has not found its way into the chain is an error. -/
def frameResult : Except FrontendError (List Byte) → Except FrontendError Unit
  | .error e => .error e
  | .ok slice => if slice.isEmpty then .ok () else .error .descriptorChainTooSmall

def slicesOf (descs : List DescriptorChain) : List VolatileSlice :=
  descs.map fun d => ⟨d.addr.toNat, d.len.toNat⟩

def buffersOf (m : M) (head : DescriptorChain) : List VolatileSlice :=
  slicesOf (head.intoIter.collect m)

/-- `write_slice` accepts this many bytes at the address. -/
def accepts (m : M) (addr len : ℕ) : Bool :=
  if len = 0 then (writeSlice m addr []).2 else decide (Mapped m addr len)

def canHold (m : M) : ℕ → List DescriptorChain → Bool
  | 0, _ => true
  | _ + 1, [] => false
  | n + 1, d :: rest =>
    d.isWriteOnly && accepts m d.addr.toNat (min (n + 1) d.len.toNat) &&
      canHold m (n + 1 - min (n + 1) d.len.toNat) rest

/-! ## The worker -/

/-- What `read_frame` answers. -/
inductive ReadAnswer
  | ok (frame : List Byte)
  | nothingRead
  | internal
  deriving DecidableEq, Repr

inductive RxEvent
  | queue
  | socket
  deriving DecidableEq, Repr

inductive RxPc
  /-- waiting for an event -/
  | idle
  /-- about to disable or to enable notifications, before `process_rx` -/
  | entering (event : RxEvent)
  /-- in `write_frame_to_guest`, for the frame held back -/
  | retrying (event : RxEvent) (tries : ℕ)
  /-- about to read a frame -/
  | reading (event : RxEvent) (signal : Bool)
  /-- in `write_frame_to_guest`, for a frame that was just read -/
  | writing (event : RxEvent) (signal : Bool) (tries : ℕ)
  /-- about to enable or to disable notifications, after `process_rx` -/
  | leaving (event : RxEvent)
  | panicked
  deriving DecidableEq, Repr

structure RxUsed where
  index : U16
  len : U32
  /-- the buffers of the chain could hold the frame -/
  fits : Bool
  /-- the bytes at the start of the buffers, as many as the used length says -/
  bytes : List Byte
  deriving DecidableEq, Repr

/-- The worker and guest memory, and the history of the frames. -/
structure RxWorker (M : Type) where
  queue : Queue
  mem : M
  /-- `rx_frame_buf[..rx_frame_buf_len]` -/
  frame : List Byte
  hasDeferredFrame : Bool
  pc : RxPc
  /-- how often the driver was interrupted -/
  interrupts : ℕ
  /-- how many chains were taken out of the queue -/
  popped : ℕ
  /-- the frames that were read, in order -/
  arrived : List (List Byte)
  /-- the chains that were put in the used ring, in order -/
  returned : List RxUsed

inductive RxStep
  | queueEvent
  | socketEvent
  /-- the call of `enable_notification` or `disable_notification` of the handler -/
  | notify
  | write
  | read (answer : ReadAnswer)
  | guest (addr : ℕ) (bs : List Byte)
  deriving DecidableEq, Repr

/-- The header that `write_virtio_net_hdr` leaves before the frame. -/
def virtioNetHdr : List Byte := List.replicate vnetHdrLen 0

namespace RxWorker

variable (s : RxWorker M)

/-- `write_frame_to_guest_impl`; `none` is a panic. -/
def writeFrameToGuestImpl : Option (Except FrontendError Unit × RxWorker M) :=
  match s.queue.pop s.mem with
  | none => none
  | some (none, q) => some (.error .emptyQueue, { s with queue := q })
  | some (some head, q) =>
    let written := writeChain (head.ttl.toNat + 1) s.mem s.frame (some head)
    let result := frameResult written.2
    let usedLen : U32 := if result.isOk then BitVec.ofNat 32 s.frame.length else 0
    match q.addUsed written.1 head.index usedLen with
    | (.ok _, q', m') =>
      some (result, { s with
        queue := q'
        mem := m'
        popped := s.popped + 1
        returned := s.returned ++
          [⟨head.index, usedLen, canHold s.mem s.frame.length (head.intoIter.collect s.mem),
            contents m' ((addrsOf (buffersOf s.mem head)).take usedLen.toNat)⟩] })
    | (.error _, q', m') =>
      some (.error .queueError, { s with queue := q', mem := m', popped := s.popped + 1 })

variable (event : RxEvent)

def finish (signal : Bool) : RxWorker M :=
  { s with
    pc := .leaving event
    interrupts := if signal then s.interrupts + 1 else s.interrupts }

def processRx : RxWorker M :=
  if s.hasDeferredFrame then { s with pc := .retrying event s.queue.actualSize.toNat }
  else { s with pc := .reading event false }

/-- The call before `process_rx`. An error is logged. -/
def enter : RxWorker M :=
  match event with
  | .queue =>
    match s.queue.disableNotification s.mem with
    | .ok m => { s with mem := m }.processRx event
    | .error _ => s.processRx event
  | .socket => { s with mem := (s.queue.enableNotification s.mem).2 }.processRx event

/-- The call after `process_rx`. Whether more chains are available is not looked at. -/
def leave : RxWorker M :=
  match event with
  | .queue => { s with mem := (s.queue.enableNotification s.mem).2, pc := .idle }
  | .socket =>
    match s.queue.disableNotification s.mem with
    | .ok m => { s with mem := m, pc := .idle }
    | .error _ => { s with pc := .idle }

/-- One turn of `write_frame_to_guest` for the frame held back. -/
def retry : ℕ → RxWorker M
  | 0 => { s with pc := .leaving event }
  | tries + 1 =>
    match s.writeFrameToGuestImpl with
    | none => { s with pc := .panicked }
    | some (.ok (), s') => { s' with hasDeferredFrame := false, pc := .reading event false }
    | some (.error _, s') => { s' with pc := .retrying event tries }

/-- One turn of `write_frame_to_guest` for a frame that was just read. -/
def write (signal : Bool) : ℕ → RxWorker M
  | 0 => { s with hasDeferredFrame := true }.finish event signal
  | tries + 1 =>
    match s.writeFrameToGuestImpl with
    | none => { s with pc := .panicked }
    | some (.ok (), s') => { s' with pc := .reading event true }
    | some (.error _, s') => { s' with pc := .writing event signal tries }

def read (signal : Bool) : ReadAnswer → RxWorker M
  | .ok frame =>
    { s with
      frame := virtioNetHdr ++ frame
      pc := .writing event signal s.queue.actualSize.toNat
      arrived := s.arrived ++ [frame] }
  | .nothingRead | .internal => s.finish event signal

/-- One step; `none` if it is not possible now. A frame is no longer than the buffer for it. -/
def step : RxStep → Option (RxWorker M)
  | .queueEvent => if s.pc = .idle then some { s with pc := .entering .queue } else none
  | .socketEvent => if s.pc = .idle then some { s with pc := .entering .socket } else none
  | .notify =>
    match s.pc with
    | .entering event => some (s.enter event)
    | .leaving event => some (s.leave event)
    | _ => none
  | .write =>
    match s.pc with
    | .retrying event tries => some (s.retry event tries)
    | .writing event signal tries => some (s.write event signal tries)
    | _ => none
  | .read answer =>
    match s.pc with
    | .reading event signal =>
      match answer with
      | .ok frame =>
        if vnetHdrLen + frame.length ≤ maxBufferSize then some (s.read event signal (.ok frame))
        else none
      | .nothingRead | .internal => some (s.read event signal answer)
    | _ => none
  | .guest addr bs => some { s with mem := (writeSlice s.mem addr bs).1 }

end RxWorker

end Shelter.Net
