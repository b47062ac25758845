import Shelter.Virtio.DescriptorUtils

/-!
# Commands and responses of the GPU device

A command is a control header and an object of a size that depends on its type, read from the chain
one after the other. A response is a control header, which repeats the fence of the command, and
what belongs to its type.
-/

open Bytes

namespace Shelter.Gpu

open Virtio

variable {M : Type} [GuestMemory M]

def virtioGpuFlagFence : U32 := 1
def virtioGpuFlagInfoRingIdx : U32 := 2
def virtioGpuBlobFlagCreateGuestHandle : U32 := 8

/-- `virtio_gpu_ctrl_hdr`; its last three bytes are padding. -/
structure CtrlHdr where
  type : U32
  flags : U32
  fenceId : U64
  ctxId : U32
  ringIdx : Byte
  deriving DecidableEq, Repr

def ctrlHdrSize : ℕ := 24

def CtrlHdr.ofBytes (bs : List Byte) : CtrlHdr where
  type := BitVec.ofNat 32 (leNat (bs.take 4))
  flags := BitVec.ofNat 32 (leNat ((bs.drop 4).take 4))
  fenceId := BitVec.ofNat 64 (leNat ((bs.drop 8).take 8))
  ctxId := BitVec.ofNat 32 (leNat ((bs.drop 16).take 4))
  ringIdx := BitVec.ofNat 8 (leNat ((bs.drop 20).take 1))

def CtrlHdr.toBytes (h : CtrlHdr) : List Byte :=
  leBytes 4 h.type.toNat ++ leBytes 4 h.flags.toNat ++ leBytes 8 h.fenceId.toNat ++
    leBytes 4 h.ctxId.toNat ++ leBytes 1 h.ringIdx.toNat ++ [0, 0, 0]

/-! ## Commands -/

inductive GpuCommand
  | getDisplayInfo
  | resourceCreate2d
  | resourceUnref
  | setScanout
  | setScanoutBlob
  | resourceFlush
  | transferToHost2d
  | resourceAttachBacking
  | resourceDetachBacking
  | getCapsetInfo
  | getCapset
  | ctxCreate
  | ctxDestroy
  | ctxAttachResource
  | ctxDetachResource
  | resourceCreate3d
  | transferToHost3d
  | transferFromHost3d
  | cmdSubmit3d
  | resourceCreateBlob
  | resourceMapBlob
  | resourceUnmapBlob
  | updateCursor
  | moveCursor
  | resourceAssignUuid
  deriving DecidableEq, Repr

def GpuCommand.ofType (type : U32) : Option GpuCommand :=
  match type.toNat with
  | 0x100 => some .getDisplayInfo
  | 0x101 => some .resourceCreate2d
  | 0x102 => some .resourceUnref
  | 0x103 => some .setScanout
  | 0x104 => some .resourceFlush
  | 0x105 => some .transferToHost2d
  | 0x106 => some .resourceAttachBacking
  | 0x107 => some .resourceDetachBacking
  | 0x108 => some .getCapsetInfo
  | 0x109 => some .getCapset
  | 0x10b => some .resourceAssignUuid
  | 0x10c => some .resourceCreateBlob
  | 0x10d => some .setScanoutBlob
  | 0x200 => some .ctxCreate
  | 0x201 => some .ctxDestroy
  | 0x202 => some .ctxAttachResource
  | 0x203 => some .ctxDetachResource
  | 0x204 => some .resourceCreate3d
  | 0x205 => some .transferToHost3d
  | 0x206 => some .transferFromHost3d
  | 0x207 => some .cmdSubmit3d
  | 0x208 => some .resourceMapBlob
  | 0x209 => some .resourceUnmapBlob
  | 0x300 => some .updateCursor
  | 0x301 => some .moveCursor
  | _ => none

def GpuCommand.size : GpuCommand → ℕ
  | .ctxDestroy => 0
  | .resourceUnref | .resourceAttachBacking | .resourceDetachBacking | .getCapsetInfo
  | .getCapset | .ctxAttachResource | .ctxDetachResource | .cmdSubmit3d | .resourceUnmapBlob
  | .resourceAssignUuid => 8
  | .resourceCreate2d | .resourceMapBlob => 16
  | .getDisplayInfo | .setScanout | .resourceFlush => 24
  | .transferToHost2d | .resourceCreateBlob | .updateCursor | .moveCursor => 32
  | .resourceCreate3d | .transferToHost3d | .transferFromHost3d => 48
  | .setScanoutBlob | .ctxCreate => 72

inductive DecodeError
  | invalidType (type : U32)
  | io (e : IoError)
  deriving DecidableEq, Repr

/-- A header, a command and the bytes of its object. -/
structure Decoded where
  hdr : CtrlHdr
  cmd : GpuCommand
  info : List Byte
  deriving DecidableEq, Repr

def GpuCommand.decode (m : M) (reader : Reader) : Except DecodeError Decoded × Reader :=
  match reader.readObj m ctrlHdrSize with
  | (_, .error e, r) => (.error (.io e), r)
  | (data, .ok _, r) =>
    let hdr := CtrlHdr.ofBytes data.data
    match GpuCommand.ofType hdr.type with
    | none => (.error (.invalidType hdr.type), r)
    | some cmd =>
      match r.readObj m cmd.size with
      | (_, .error e, r') => (.error (.io e), r')
      | (info, .ok _, r') => (.ok ⟨hdr, cmd, info.data⟩, r')

/-! ## Responses -/

structure GpuResponsePlaneInfo where
  stride : U32
  offset : U32
  deriving DecidableEq, Repr

inductive GpuResponse
  | okNoData
  | okDisplayInfo (info : List (U32 × U32 × Bool))
  | okCapsetInfo (capsetId version size : U32)
  | okCapset (data : List Byte)
  | okResourcePlaneInfo (formatModifier : U64) (planeInfo : List GpuResponsePlaneInfo)
  | okResourceUuid (uuid : List Byte)
  | okMapInfo (mapInfo : U32)
  | errUnspec
  | errRutabaga
  | errScanout
  | errOutOfMemory
  | errInvalidScanoutId
  | errInvalidResourceId
  | errInvalidContextId
  | errInvalidParameter
  deriving DecidableEq, Repr

def virtioGpuRespOkNodata : U32 := 0x1100

def GpuResponse.getType : GpuResponse → U32
  | .okNoData => virtioGpuRespOkNodata
  | .okDisplayInfo _ => 0x1101
  | .okCapsetInfo _ _ _ => 0x1102
  | .okCapset _ => 0x1103
  | .okResourceUuid _ => 0x1105
  | .okMapInfo _ => 0x1106
  | .okResourcePlaneInfo _ _ => 0x11ff
  | .errUnspec | .errRutabaga | .errScanout => 0x1200
  | .errOutOfMemory => 0x1201
  | .errInvalidScanoutId => 0x1202
  | .errInvalidResourceId => 0x1203
  | .errInvalidContextId => 0x1204
  | .errInvalidParameter => 0x1205

inductive EncodeError
  | io (e : IoError)
  | tooManyDisplays (n : ℕ)
  | tooManyPlanes (n : ℕ)
  deriving DecidableEq, Repr

def virtioGpuMaxScanouts : ℕ := 16
def planeInfoMaxCount : ℕ := 4

/-- Little-endian words, filled up with zeros to `n` of them. -/
def words (n : ℕ) (ws : List U32) : List Byte :=
  (ws ++ List.replicate (n - ws.length) 0).flatMap fun w : U32 => leBytes 4 w.toNat

def GpuResponse.payload : GpuResponse → Except EncodeError (List Byte)
  | .okDisplayInfo info =>
    if virtioGpuMaxScanouts < info.length then .error (.tooManyDisplays info.length)
    else
      -- one mode is a rectangle, of which only the size is set, `enabled` and `flags`
      let pmodes := info.flatMap fun p => [0, 0, p.1, p.2.1, if p.2.2 then 1 else 0, 0]
      .ok (words (6 * virtioGpuMaxScanouts) pmodes)
  | .okCapsetInfo capsetId version size => .ok (words 4 [capsetId, version, size])
  | .okCapset data => .ok data
  | .okResourcePlaneInfo formatModifier planeInfo =>
    if planeInfoMaxCount < planeInfo.length then .error (.tooManyPlanes planeInfo.length)
    else
      .ok (words 2 [BitVec.ofNat 32 planeInfo.length] ++ leBytes 8 formatModifier.toNat ++
        words planeInfoMaxCount (planeInfo.map (·.stride)) ++
        words planeInfoMaxCount (planeInfo.map (·.offset)))
  | .okResourceUuid uuid => .ok uuid
  | .okMapInfo mapInfo => .ok (words 2 [mapInfo])
  | .okNoData | .errUnspec | .errRutabaga | .errScanout | .errOutOfMemory | .errInvalidScanoutId
  | .errInvalidResourceId | .errInvalidContextId | .errInvalidParameter => .ok []

/-- Plane information that does not fit is left out, and the response is an `OK_NODATA`. -/
def GpuResponse.bytes (resp : GpuResponse) (hdr : CtrlHdr) (room : ℕ) (payload : List Byte) :
    List Byte :=
  match resp with
  | .okResourcePlaneInfo _ _ =>
    if ctrlHdrSize + payload.length ≤ room then hdr.toBytes ++ payload
    else { hdr with type := virtioGpuRespOkNodata }.toBytes
  | _ => hdr.toBytes ++ payload

/-- The header and what follows it are one object, or written one after the other. -/
def GpuResponse.encode (resp : GpuResponse) (flags : U32) (fenceId : U64) (ctxId : U32)
    (ringIdx : Byte) (m : M) (w : Writer) : WriteEffect M × Except EncodeError U32 × Writer :=
  match resp.payload with
  | .error e => (⟨m, []⟩, .error e, w)
  | .ok payload =>
    let bs := resp.bytes ⟨resp.getType, flags, fenceId, ctxId, ringIdx⟩ w.availableBytes payload
    match w.writeAll m bs with
    | (effect, .error e, w') => (effect, .error (.io e), w')
    | (effect, .ok _, w') => (effect, .ok (BitVec.ofNat 32 bs.length), w')

theorem GpuResponse.encode_layout [LawfulGuestMemory M] (resp : GpuResponse) (flags : U32)
    (fenceId : U64) (ctxId : U32) (ringIdx : Byte) (m : M) (w : Writer) :
    SameLayout m (resp.encode flags fenceId ctxId ringIdx m w).1.mem := by
  unfold GpuResponse.encode
  rcases resp.payload with e | payload
  · exact .refl m
  · simp only
    set bs := resp.bytes ⟨resp.getType, flags, fenceId, ctxId, ringIdx⟩ w.availableBytes payload
    have hlayout : SameLayout m (w.writeAll m bs).1.mem :=
      (Writer.writeAllLoop_confined (S := fun _ => True) bs.length m bs
        fun _ _ _ _ => trivial).1.layout
    rcases hrun : w.writeAll m bs with ⟨effect, e | _, w'⟩ <;> rw [hrun] at hlayout
    · exact hlayout
    · exact hlayout

end Shelter.Gpu
