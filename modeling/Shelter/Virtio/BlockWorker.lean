import Shelter.Virtio.ChainAccess
import Shelter.Virtio.Service

/-!
# The block worker

The body of `process_queue` is modelled down to the calls on the disk, which is a parameter.
-/

open Bytes

namespace Shelter.Virtio

variable {M D : Type} [GuestMemory M]

/-- The end that the workers share: put the chain in the used ring, with errors logged, and look
whether the driver is to be interrupted. -/
def addUsedAndNotify (s : ServiceState M D) (headIndex : U16) (len : U32) :
    Option (ServiceState M D) :=
  let out := (s.queue.addUsed s.mem headIndex len).2
  match out.1.needsNotification out.2 with
  | .error _ => none
  | .ok (_, q) => some { s with queue := q, mem := out.2 }

/-! ## The block device -/

namespace BlockWorker

def virtioBlkTIn : U32 := 0
def virtioBlkTOut : U32 := 1
def virtioBlkTFlush : U32 := 4
def virtioBlkTGetId : U32 := 8

def virtioBlkSOk : Byte := 0
def virtioBlkSIoerr : Byte := 1

structure RequestHeader where
  requestType : U32
  sector : U64
  deriving DecidableEq, Repr

/-- The fields of the 16 bytes of a header; the second word is reserved. -/
def RequestHeader.ofBytes (bs : List Byte) : RequestHeader where
  requestType := BitVec.ofNat 32 (leNat (bs.take 4))
  sector := BitVec.ofNat 64 (leNat ((bs.drop 8).take 8))

inductive RequestError
  | invalidDataLength
  | writingToDescriptor (e : IoError)
  | readingFromDescriptor (e : IoError)
  | flushingToDisk (e : IoError)
  | unknownRequest
  deriving DecidableEq, Repr

inductive CacheType
  | unsafeCache
  | writeback
  deriving DecidableEq, Repr

/-- The disk behind the device, with states `D`. -/
structure Disk (D : Type) where
  /-- `read_vectored_at_volatile` of the file -/
  readAt : D → U64 → Source
  /-- `write_vectored_at_volatile` of the file, given the bytes of the slices -/
  writeAt : D → U64 → List Byte → D × Except IoError ℕ
  flush : D → D × Except IoError Unit
  syncAll : D → D × Except IoError Unit
  cacheType : CacheType
  imageId : List Byte

def gather (m : M) (bufs : List VolatileSlice) : List Byte :=
  bufs.flatMap fun vs => bytesAt m vs.addr vs.len

/-- What a request leaves: its result, the writer, the memory and the disk. -/
structure RequestOut (M D : Type) where
  result : Except RequestError ℕ
  writer : Writer
  mem : M
  dev : D

/-- One request. `available_bytes() - 1` and the offset of the sector wrap, as in a release
build. -/
def processRequest (disk : Disk D) (header : RequestHeader) (reader : Reader) (writer : Writer)
    (m : M) (d : D) : RequestOut M D :=
  if header.requestType = virtioBlkTIn then
    let dataLen := BitVec.ofNat 64 writer.availableBytes - 1
    if dataLen.toNat % 512 ≠ 0 then ⟨.error .invalidDataLength, writer, m, d⟩
    else
      let out := writer.writeFrom m (disk.readAt d (header.sector * 512)) dataLen.toNat
      ⟨out.2.1.mapError .writingToDescriptor, out.2.2, out.1.mem, d⟩
  else if header.requestType = virtioBlkTOut then
    let dataLen := reader.availableBytes
    if dataLen % 512 ≠ 0 then ⟨.error .invalidDataLength, writer, m, d⟩
    else
      let write (bufs : List VolatileSlice) :=
        disk.writeAt d (header.sector * 512) (gather m bufs)
      let out := reader.readTo (fun bufs => (write bufs).2) dataLen
      -- no slice is passed on only if there are no bytes to write
      let d' := if out.1.isEmpty then d else (write out.1).1
      ⟨out.2.1.mapError .readingFromDescriptor, writer, m, d'⟩
  else if header.requestType = virtioBlkTFlush then
    match disk.cacheType with
    | .unsafeCache => ⟨.ok 0, writer, m, d⟩
    | .writeback =>
      match disk.flush d with
      | (d₁, .error e) => ⟨.error (.flushingToDisk e), writer, m, d₁⟩
      | (d₁, .ok ()) =>
        match disk.syncAll d₁ with
        | (d₂, .error e) => ⟨.error (.flushingToDisk e), writer, m, d₂⟩
        | (d₂, .ok ()) => ⟨.ok 0, writer, m, d₂⟩
  else if header.requestType = virtioBlkTGetId then
    if writer.availableBytes < disk.imageId.length then
      ⟨.error .invalidDataLength, writer, m, d⟩
    else
      let out := writer.writeAll m disk.imageId
      ⟨(out.2.1.mapError .writingToDescriptor).map fun _ => disk.imageId.length, out.2.2, out.1.mem,
        d⟩
  else ⟨.error .unknownRequest, writer, m, d⟩

def statusAndLen : Except RequestError ℕ → Byte × ℕ
  | .ok l => (virtioBlkSOk, l)
  | .error _ => (virtioBlkSIoerr, 0)

/-- The body of `process_queue`. A chain with a buffer outside of memory, or with too few bytes for
a header, is dropped: it is not put in the used ring. -/
def handle (disk : Disk D) (head : DescriptorChain) (s : ServiceState M D) :
    Option (ServiceState M D) :=
  match Reader.new s.mem head with
  | .error _ => some s
  | .ok reader =>
    match Writer.new s.mem head with
    | .error _ => some s
    | .ok writer =>
      match reader.readObj s.mem 16 with
      | (_, .error _, _) => some s
      | (header, .ok _, reader') =>
        let out := processRequest disk (.ofBytes header.data) reader' writer s.mem s.dev
        let (status, len) := statusAndLen out.result
        let m := (out.writer.writeAll out.mem [status]).1.mem
        addUsedAndNotify { s with mem := m, dev := out.dev } head.index (BitVec.ofNat 32 len)

end BlockWorker

/-! ## A concrete queue -/

/-- `smallMemory` with one chain made available: the head, and entries 0 and 1 of the table. -/
def servedMemory (head : U16) (d₀ d₁ : Descriptor) : FlatMemory :=
  (((smallMemory.put 0 d₀.toBytes).put 16 d₁.toBytes).put 0x82 (leBytes 2 1)).put 0x84
    (leBytes 2 head.toNat)

def servedQueue (head : U16) (d₀ d₁ : Descriptor) : ServiceState FlatMemory Unit :=
  ⟨smallQueue, servedMemory head d₀ d₁, ()⟩

def oneRequest : ServiceState FlatMemory Unit :=
  servedQueue 0 ⟨0x100, 16, 1, 1⟩ ⟨0x110, 1, 2, 0⟩

def emptyDisk : BlockWorker.Disk Unit where
  readAt _ _ _ := ([], .ok 0)
  writeAt _ _ _ := ((), .ok 0)
  flush _ := ((), .ok ())
  syncAll _ := ((), .ok ())
  cacheType := .unsafeCache
  imageId := []

theorem servedQueue_placed (head : U16) (d₀ d₁ : Descriptor) : (servedQueue head d₀ d₁).Placed where
  rings := smallQueue_rings.congr (.refl _) fun _ => rfl
  apartAvail := apart_of_le (show 0xc0 + 38 ≤ 0x80 ∨ 0x80 + 14 ≤ 0xc0 by decide)
  apartTable := apart_of_le (show 0xc0 + 38 ≤ 0 ∨ 0 + 64 ≤ 0xc0 by decide)

end Shelter.Virtio
