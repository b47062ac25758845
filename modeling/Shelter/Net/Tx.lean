import Shelter.Lib.Run
import Shelter.Net.Passt
import Shelter.Virtio.Queue

/-!
# The transmit side of the net worker

`process_tx_loop` takes chains out of the transmit queue, copies the bytes of each into one buffer
and has the backend send it. When the socket is full the chain is either put back or, if a part of
the frame is already on its way, returned, and the rest of the frame stays in the buffer until the
socket is writeable again or the guest kicks the queue.

The steps of the model are those that the guest and the socket can come between; each call of `send`
is a step of its own. The chains have numbers in the order in which they were taken, and the model
keeps a history of them, and of the bytes the socket has taken, beside the state.
-/

open Bytes

namespace Shelter.Net

open Virtio

variable {M : Type} [GuestMemory M]

def maxBufferSize : ℕ := 65562

def vnetHdrLen : ℕ := 12

/-! ## The bytes of a chain -/

/-- The walk over the descriptors of a chain. One that the device may not read voids the list. -/
def txIovec : List (ℕ × ℕ) → List DescriptorChain → List (ℕ × ℕ)
  | iovec, [] => iovec
  | iovec, desc :: rest =>
    if desc.isWriteOnly then [] else txIovec (iovec ++ [(desc.addr.toNat, desc.len.toNat)]) rest

/-- The copy of the buffers, cut where the frame buffer is full. A buffer that cannot be read voids
what was copied. -/
def copyBuffers (m : M) : List Byte → List (ℕ × ℕ) → List Byte
  | copied, [] => copied
  | copied, (addr, len) :: rest =>
    let limit := min (copied.length + len) maxBufferSize
    let count := limit - copied.length
    match readSlice m addr count with
    | some bs => copyBuffers m (copied ++ bs.take count) rest
    | none => []

/-- What `process_tx` copies of a chain. -/
def chainBuffer (m : M) (head : DescriptorChain) : List Byte :=
  copyBuffers m [] (txIovec [] (head.intoIter.collect m))

/-! ## The worker -/

/-- A chain in the hands of `process_tx`, and whether the queue was used before. -/
structure TxHand where
  raiseIrq : Bool
  number : ℕ
  head : DescriptorChain
  deriving DecidableEq, Repr

inductive TxJob
  /-- the rest of a frame, in the handler of the socket -/
  | writeable
  /-- the rest of a frame, at the start of `process_tx` -/
  | unfinished
  /-- the frame of a chain -/
  | frame (hand : TxHand)
  deriving DecidableEq, Repr

inductive TxPc
  /-- waiting for an event -/
  | idle
  /-- about to disable notifications -/
  | disabling
  /-- at the start of `process_tx` -/
  | starting
  /-- about to take a chain out of the queue -/
  | popping (raiseIrq : Bool)
  /-- about to copy the chain -/
  | copying (hand : TxHand)
  /-- about to call `send` -/
  | sending (job : TxJob) (bytesSend : ℕ)
  /-- behind the loop of `process_tx` -/
  | leaving (raiseIrq : Bool)
  /-- `process_tx` has returned, about to enable notifications -/
  | enabling
  | panicked
  deriving DecidableEq, Repr

/-- The worker, guest memory and the socket, and the history of the chains. -/
structure TxWorker (M : Type) where
  queue : Queue
  mem : M
  backend : Passt
  /-- `tx_frame_buf[..tx_frame_len]` -/
  frame : List Byte
  pc : TxPc
  /-- how often the driver was interrupted -/
  interrupts : ℕ
  /-- the bytes that the socket has taken -/
  sent : List Byte
  /-- how many chains were taken out of the queue -/
  popped : ℕ
  /-- the chains that were put in the used ring, the last one first -/
  used : List ℕ
  /-- the chains that were put back, the last one first -/
  undone : List ℕ
  /-- a chain was put in the used ring, and the need of an interrupt was not looked at since -/
  undecided : Bool

/-- An event, a step of the worker or a write of the guest. -/
inductive TxStep
  /-- the guest has kicked the queue -/
  | queueEvent
  /-- the socket is writeable -/
  | writeable
  | disable
  | start
  | pop
  | copy
  | send (answer : SendAnswer)
  | leave
  | enable
  | guest (addr : ℕ) (bs : List Byte)
  deriving DecidableEq, Repr

namespace TxWorker

variable (s : TxWorker M)

/-- Puts the chain in the used ring; an error ends `process_tx`. -/
def addUsed (hand : TxHand) (next : TxPc) : TxWorker M :=
  match s.queue.addUsed s.mem hand.head.index 0 with
  | (.ok _, q, m) =>
    { s with queue := q, mem := m, pc := next, used := hand.number :: s.used, undecided := true }
  | (.error _, q, m) => { s with queue := q, mem := m, pc := .enabling }

def sendDone : TxJob → Except WriteError Unit → TxWorker M
  | .writeable, .ok () => { s with pc := .disabling }
  | .writeable, .error _ => { s with pc := .idle }
  | .unfinished, .ok () => { s with pc := .popping false }
  | .unfinished, .error _ => { s with pc := .enabling }
  | .frame hand, .ok () => addUsed { s with frame := [] } hand (.popping true)
  | .frame hand, .error .nothingWritten =>
    { s with
      queue := s.queue.undoPop
      pc := .leaving hand.raiseIrq
      undone := hand.number :: s.undone }
  | .frame hand, .error .partialWrite => s.addUsed hand (.leaving true)
  | .frame _, .error .processNotRunning | .frame _, .error .internal => { s with pc := .enabling }

/-- The part of the frame buffer that the loop of the backend is sending. -/
def unsent : List Byte := s.backend.unsent vnetHdrLen s.frame

def sendLoop (job : TxJob) (bytesSend : ℕ) : TxWorker M :=
  if bytesSend < s.unsent.length then { s with pc := .sending job bytesSend }
  else { s with backend := ⟨0⟩ }.sendDone job (.ok ())

def tryFinishWrite (job : TxJob) : TxWorker M :=
  if s.backend.hasUnfinishedWrite then
    if s.backend.InRange vnetHdrLen s.frame then s.sendLoop job 0 else { s with pc := .panicked }
  else s.sendDone job (.ok ())

def disable : TxWorker M :=
  match s.queue.disableNotification s.mem with
  | .error _ => { s with pc := .panicked }
  | .ok m => { s with mem := m, pc := .starting }

def pop (raiseIrq : Bool) : TxWorker M :=
  match s.queue.pop s.mem with
  | none => { s with pc := .panicked }
  | some (none, q) => { s with queue := q, pc := .leaving raiseIrq }
  | some (some head, q) =>
    { s with queue := q, pc := .copying ⟨raiseIrq, s.popped, head⟩, popped := s.popped + 1 }

/-- The copy, and `write_frame` up to its loop. -/
def copy (hand : TxHand) : TxWorker M :=
  match s.backend.writeFrame vnetHdrLen (chainBuffer s.mem hand.head) with
  | none => { s with frame := chainBuffer s.mem hand.head, pc := .panicked }
  | some frame => { s with frame := frame }.sendLoop (.frame hand) 0

def send (job : TxJob) (bytesSend : ℕ) (answer : SendAnswer) : TxWorker M :=
  match s.backend.sendTurn s.unsent bytesSend answer with
  | (p, taken, .ok bytesSend') =>
    { s with backend := p, sent := s.sent ++ taken }.sendLoop job bytesSend'
  | (p, taken, .error e) => { s with backend := p, sent := s.sent ++ taken }.sendDone job (.error e)

/-- The decision about the interrupt, at the end of `process_tx`. -/
def leave (raiseIrq : Bool) : TxWorker M :=
  if raiseIrq then
    match s.queue.needsNotification s.mem with
    | .error _ => { s with pc := .panicked }
    | .ok (needed, q) =>
      { s with
        queue := q
        pc := .enabling
        interrupts := if needed then s.interrupts + 1 else s.interrupts
        undecided := false }
  else { s with pc := .enabling }

def enable : TxWorker M :=
  match s.queue.enableNotification s.mem with
  | (.error _, m) => { s with mem := m, pc := .panicked }
  | (.ok true, m) => { s with mem := m, pc := .disabling }
  | (.ok false, m) => { s with mem := m, pc := .idle }

/-- One step; `none` if it is not possible now. -/
def step : TxStep → Option (TxWorker M)
  | .queueEvent => if s.pc = .idle then some { s with pc := .disabling } else none
  | .writeable => if s.pc = .idle then some (s.tryFinishWrite .writeable) else none
  | .disable => if s.pc = .disabling then some s.disable else none
  | .start =>
    if s.pc = .starting then some (s.tryFinishWrite .unfinished) else none
  | .pop =>
    match s.pc with
    | .popping raiseIrq => some (s.pop raiseIrq)
    | _ => none
  | .copy =>
    match s.pc with
    | .copying hand => some (s.copy hand)
    | _ => none
  | .send answer =>
    match s.pc with
    | .sending job bytesSend => some (s.send job bytesSend answer)
    | _ => none
  | .leave =>
    match s.pc with
    | .leaving raiseIrq => some (s.leave raiseIrq)
    | _ => none
  | .enable => if s.pc = .enabling then some s.enable else none
  | .guest addr bs => some { s with mem := (writeSlice s.mem addr bs).1 }

end TxWorker

end Shelter.Net
