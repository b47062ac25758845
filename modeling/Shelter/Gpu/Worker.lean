import Shelter.Gpu.Protocol
import Shelter.Lib.Run
import Shelter.Virtio.Queue
import Mathlib.Logic.Function.Basic

/-!
# The GPU worker and its fences

The worker takes chains out of the control queue and has the renderer execute their commands. For a
command with a fence it asks the renderer to create the fence and parks the chain, unless the fence
is known to be complete. The renderer reports completed fences from a thread of its own, in a
handler that returns the parked chains of the fence. The queue and the parked chains are each behind
a lock; the handler holds both, the worker only one at a time.

The steps of the model are those that the handler and the guest can come between. What the renderer
answers is part of the step. The chains have numbers in the order in which they were taken, and the
model keeps a history of them beside the state.
-/

open Bytes

namespace Shelter.Gpu

open Virtio

variable {M : Type} [GuestMemory M]

inductive VirtioGpuRing
  | global
  | contextSpecific (ctxId : U32) (ringIdx : Byte)
  deriving DecidableEq, Repr

structure RutabagaFence where
  flags : U32
  fenceId : U64
  ctxId : U32
  ringIdx : Byte
  deriving DecidableEq, Repr

def RutabagaFence.ring (f : RutabagaFence) : VirtioGpuRing :=
  if f.flags &&& virtioGpuFlagInfoRingIdx = 0 then .global else .contextSpecific f.ctxId f.ringIdx

def CtrlHdr.fence (h : CtrlHdr) : Option RutabagaFence :=
  if h.flags &&& virtioGpuFlagFence ≠ 0 then some ⟨h.flags, h.fenceId, h.ctxId, h.ringIdx⟩
  else none

structure FenceDescriptor where
  ring : VirtioGpuRing
  fenceId : U64
  descIndex : U16
  len : U32
  number : ℕ
  deriving DecidableEq, Repr

structure FenceState where
  descs : List FenceDescriptor
  completedFences : VirtioGpuRing → Option U64

/-- A chain in the hands of the worker, and whether the queue was used before. -/
structure Hand where
  usedAny : Bool
  number : ℕ
  head : DescriptorChain
  deriving DecidableEq, Repr

inductive Pc
  /-- waiting for a message -/
  | waiting
  /-- about to take a chain out of the queue -/
  | popping (usedAny : Bool)
  /-- about to make a reader and a writer -/
  | opening (hand : Hand)
  /-- about to decode and execute the command -/
  | commanding (hand : Hand) (reader : Reader) (writer : Writer)
  /-- about to create the fence -/
  | fencing (hand : Hand) (fence : RutabagaFence) (resp : GpuResponse) (writer : Writer)
  /-- about to write the response -/
  | encoding (hand : Hand) (fence : Option RutabagaFence) (resp : GpuResponse) (writer : Writer)
  /-- about to call `process_fence` -/
  | parking (hand : Hand) (fence : RutabagaFence) (len : U32)
  /-- about to put the chain in the used ring -/
  | returning (hand : Hand) (len : U32)
  | panicked
  deriving DecidableEq, Repr

def Pc.hand : Pc → Option Hand
  | .opening h | .commanding h _ _ | .fencing h _ _ _ | .encoding h _ _ _ | .parking h _ _
  | .returning h _ => some h
  | .waiting | .popping _ | .panicked => none

/-- The device: the queue, guest memory and the parked chains, and the history of the chains. -/
structure VirtioGpu (M : Type) where
  queue : Queue
  mem : M
  fences : FenceState
  pc : Pc
  /-- how often the driver was interrupted -/
  interrupts : ℕ
  /-- how many chains were taken out of the queue -/
  popped : ℕ
  /-- the chains that were put in the used ring, the last one first -/
  used : List ℕ
  /-- the chains whose commands have a fence, with the fence -/
  fenced : List (ℕ × RutabagaFence)
  /-- the chains whose fences were created -/
  created : List ℕ
  /-- the fences that were reported as completed, the last one first -/
  reported : List RutabagaFence

/-- Reads `n` objects of this size. -/
def readObjs (m : M) (size : ℕ) : ℕ → Reader → Option Reader
  | 0, r => some r
  | n + 1, r =>
    match r.readObj m size with
    | (_, .ok _, r') => readObjs m size n r'
    | (_, .error _, _) => none

def infoWord (info : List Byte) (off : ℕ) : ℕ := leNat ((info.drop off).take 4)

/-- `process_gpu_command`; `none` is a panic. `answer` is what the renderer answers, if it is asked,
where `none` is a panic on the way. -/
def processGpuCommand (m : M) (d : Decoded) (reader : Reader)
    (answer : Option (Except GpuResponse GpuResponse)) : Option (Except GpuResponse GpuResponse) :=
  match d.cmd with
  | .getDisplayInfo | .setScanout | .updateCursor | .moveCursor | .setScanoutBlob
  | .transferFromHost3d => none
  | .resourceAttachBacking =>
    if reader.availableBytes = 0 then some (.error .errUnspec)
    else
      match readObjs m 16 (infoWord d.info 4) reader with
      | none => some (.error .errUnspec)
      | some _ => answer
  | .cmdSubmit3d =>
    if reader.availableBytes = 0 then some (.ok .okNoData)
    else
      match readObjs m 8 (infoWord d.info 4) reader with
      | none => some (.error .errUnspec)
      | some r =>
        match r.readObj m (infoWord d.info 0) with
        | (_, .ok _, _) => answer
        | (_, .error _, _) => some (.error .errInvalidParameter)
  | .resourceCreateBlob =>
    if reader.availableBytes = 0 ∧ 0 < infoWord d.info 12 then some (.error .errUnspec)
    else
      match readObjs m 16 (infoWord d.info 12) reader with
      | none => some (.error .errUnspec)
      | some _ =>
        if BitVec.ofNat 32 (infoWord d.info 8) &&& virtioGpuBlobFlagCreateGuestHandle ≠ 0 then none
        else answer
  | .resourceCreate2d | .resourceUnref | .resourceFlush | .transferToHost2d
  | .resourceDetachBacking | .getCapsetInfo | .getCapset | .ctxCreate | .ctxDestroy
  | .ctxAttachResource | .ctxDetachResource | .resourceCreate3d | .transferToHost3d
  | .resourceMapBlob | .resourceUnmapBlob | .resourceAssignUuid => answer

def responseOf : Except GpuResponse GpuResponse → GpuResponse
  | .ok resp | .error resp => resp

def Pc.afterCommand (hand : Hand) (fence : Option RutabagaFence) (resp : GpuResponse)
    (writer : Writer) : Pc :=
  if writer.availableBytes = 0 then .returning hand 0
  else
    match fence with
    | some f => .fencing hand f resp writer
    | none => .encoding hand none resp writer

inductive Step
  /-- a message of the event loop -/
  | recv
  | pop
  | newReaderWriter
  | command (answer : Option (Except GpuResponse GpuResponse))
  | createFence (answer : Except GpuResponse Unit)
  | encode
  | processFence
  | addUsed
  /-- the renderer reports a completed fence -/
  | complete (fence : RutabagaFence)
  /-- the guest, or the renderer, writes to guest memory -/
  | guest (addr : ℕ) (bs : List Byte)
  deriving DecidableEq, Repr

namespace VirtioGpu

variable (s : VirtioGpu M)

/-- `add_used`, with an error logged. -/
def addUsed (number : ℕ) (index : U16) (len : U32) : VirtioGpu M :=
  match s.queue.addUsed s.mem index len with
  | (.ok _, q, m) => { s with queue := q, mem := m, used := number :: s.used }
  | (.error _, q, m) => { s with queue := q, mem := m }

/-- The loop of the fence handler over the parked chains: it keeps those that are not due. -/
def returnDue (ring : VirtioGpuRing) (fenceId : U64) :
    List FenceDescriptor → VirtioGpu M → List FenceDescriptor × VirtioGpu M
  | [], s => ([], s)
  | d :: rest, s =>
    if d.ring = ring ∧ d.fenceId ≤ fenceId then
      let s₁ := s.addUsed d.number d.descIndex d.len
      returnDue ring fenceId rest { s₁ with interrupts := s₁.interrupts + 1 }
    else
      let (kept, s') := returnDue ring fenceId rest s
      (d :: kept, s')

/-- The handler of `create_fence_handler`. The last report is what is remembered of a ring. -/
def fenceHandler (f : RutabagaFence) : VirtioGpu M :=
  let (kept, s') := returnDue f.ring f.fenceId s.fences.descs s
  { s' with
    fences := ⟨kept, Function.update s.fences.completedFences f.ring (some f.fenceId)⟩
    reported := f :: s.reported }

/-- The end of `process_queue`, if there is no chain, or a chain with the next number. -/
def pop (usedAny : Bool) : VirtioGpu M :=
  match s.queue.pop s.mem with
  | none => { s with pc := .panicked }
  | some (none, _) =>
    { s with pc := .waiting, interrupts := if usedAny then s.interrupts + 1 else s.interrupts }
  | some (some head, q) =>
    { s with queue := q, pc := .opening ⟨usedAny, s.popped, head⟩, popped := s.popped + 1 }

variable (hand : Hand)

def newReaderWriter : VirtioGpu M :=
  match Reader.new s.mem hand.head, Writer.new s.mem hand.head with
  | .ok reader, .ok writer => { s with pc := .commanding hand reader writer }
  | _, _ => { s with pc := .panicked }

def command (reader : Reader) (writer : Writer)
    (answer : Option (Except GpuResponse GpuResponse)) : VirtioGpu M :=
  match GpuCommand.decode s.mem reader with
  | (.error _, _) => { s with pc := .afterCommand hand none .errUnspec writer }
  | (.ok d, reader') =>
    match processGpuCommand s.mem d reader' answer with
    | none => { s with pc := .panicked }
    | some resp =>
      { s with
        pc := .afterCommand hand d.hdr.fence (responseOf resp) writer
        fenced := (d.hdr.fence.toList.map (Prod.mk hand.number)) ++ s.fenced }

/-- A failure to create the fence changes the response and nothing else. -/
def createFence (fence : RutabagaFence) (resp : GpuResponse)
    (writer : Writer) : Except GpuResponse Unit → VirtioGpu M
  | .ok () =>
    { s with pc := .encoding hand (some fence) resp writer, created := hand.number :: s.created }
  | .error fenceResp => { s with pc := .encoding hand (some fence) fenceResp writer }

def encode (fence : Option RutabagaFence) (resp : GpuResponse) (writer : Writer) : VirtioGpu M :=
  let f := fence.getD ⟨0, 0, 0, 0⟩
  let out := resp.encode f.flags f.fenceId f.ctxId f.ringIdx s.mem writer
  let len : U32 := match out.2.1 with
    | .ok l => l
    | .error _ => 0
  { s with
    mem := out.1.mem
    pc := match fence with
      | some f => .parking hand f len
      | none => .returning hand len }

def processFence (fence : RutabagaFence) (len : U32) : VirtioGpu M :=
  if (s.fences.completedFences fence.ring).getD 0 < fence.fenceId then
    { s with
      fences := { s.fences with
        descs := s.fences.descs ++
          [⟨fence.ring, fence.fenceId, hand.head.index, len, hand.number⟩] }
      pc := .popping hand.usedAny }
  else { s with pc := .returning hand len }

/-- One step of the worker, the renderer or the guest; `none` if it is not possible now. -/
def step : Step → Option (VirtioGpu M)
  | .recv => if s.pc = .waiting then some { s with pc := .popping false } else none
  | .pop =>
    match s.pc with
    | .popping usedAny => some (s.pop usedAny)
    | _ => none
  | .newReaderWriter =>
    match s.pc with
    | .opening hand => some (s.newReaderWriter hand)
    | _ => none
  | .command answer =>
    match s.pc with
    | .commanding hand reader writer => some (s.command hand reader writer answer)
    | _ => none
  | .createFence answer =>
    match s.pc with
    | .fencing hand fence resp writer => some (s.createFence hand fence resp writer answer)
    | _ => none
  | .encode =>
    match s.pc with
    | .encoding hand fence resp writer => some (s.encode hand fence resp writer)
    | _ => none
  | .processFence =>
    match s.pc with
    | .parking hand fence len => some (s.processFence hand fence len)
    | _ => none
  | .addUsed =>
    match s.pc with
    | .returning hand len =>
      some { s.addUsed hand.number hand.head.index len with pc := .popping true }
    | _ => none
  | .complete fence => some (s.fenceHandler fence)
  | .guest addr bs => some { s with mem := (writeSlice s.mem addr bs).1 }

end VirtioGpu

end Shelter.Gpu
