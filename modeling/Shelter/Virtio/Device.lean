import Shelter.Virtio.Queue

/-!
# The virtio devices as the transport sees them

`Device` is what the trait `VirtioDevice` shows of a device: its features, its configuration
space, its queues and whether it is activated. The nine devices of the repository differ in what
`activate` checks and sets up, in whether `reset` is supported and what it leaves behind, and in
`read_config`; `DeviceKind` carries these differences. Host calls (event descriptors, disk images,
threads) are taken to succeed.
-/

open Bytes

namespace Shelter.Virtio

/-- The devices. A console has two queues for each port and two for control messages. -/
inductive DeviceKind
  | net
  | block
  | console (ports : ℕ)
  | rng
  | balloon
  | gpu
  | vsock
  | snd
  | fs
  deriving DecidableEq, Repr

/-- A shared memory region, by its address in the guest. -/
structure VirtioShmRegion where
  guestAddr : U64
  size : U64
  deriving DecidableEq, Repr

/-- What `activate` of a device checks and sets up. -/
structure Activation where
  /-- it panics if there is a worker thread already, and starts one -/
  ownsWorker : Bool
  /-- the number of queues it insists on -/
  numQueues : Option ℕ
  /-- it panics without a shared memory region -/
  needsShm : Bool
  /-- the queues that learn whether `EVENT_IDX` was negotiated -/
  eventIdxQueues : List ℕ

namespace DeviceKind

/-- The ids of `linux/virtio_ids.h`. -/
def deviceType : DeviceKind → U32
  | net => 1
  | block => 2
  | console _ => 3
  | rng => 4
  | balloon => 5
  | gpu => 16
  | vsock => 19
  | snd => 25
  | fs => 26

def queueSizes : DeviceKind → List U16
  | net => List.replicate 2 1024
  | block => [256]
  | console ports => List.replicate (2 + 2 * ports) 32
  | rng => [256]
  | balloon => List.replicate 5 256
  | gpu => List.replicate 2 256
  | vsock => List.replicate 3 256
  | snd => List.replicate 4 256
  | fs => List.replicate 2 1024

def activation : DeviceKind → Activation
  | net => ⟨false, none, false, [0, 1]⟩
  | block => ⟨true, none, false, [0]⟩
  | console _ => ⟨false, none, false, []⟩
  | rng => ⟨false, some 1, false, []⟩
  | balloon => ⟨false, some 5, false, []⟩
  | gpu => ⟨false, some 2, true, []⟩
  | vsock => ⟨false, some 3, false, []⟩
  | snd => ⟨true, some 4, false, [0, 1, 2, 3]⟩
  | fs => ⟨true, none, false, [0, 1]⟩

/-- What `reset` returns: whether the device supports it. The trait's own `reset` returns
`false`. -/
def acceptsReset : DeviceKind → Bool
  | block | snd | fs | console _ | rng => true
  | net | balloon | gpu | vsock => false

/-- A device whose `reset` stops its worker and becomes inactive. Console and rng accept a reset
and stay activated. -/
def resetDeactivates : DeviceKind → Bool
  | block | snd | fs => true
  | _ => false

end DeviceKind

structure Device where
  kind : DeviceKind
  availFeatures : U64
  ackedFeatures : U64
  /-- the bytes of the configuration struct, for a vsock those of its CID -/
  config : List Byte
  shmRegion : Option VirtioShmRegion
  queues : List Queue
  activated : Bool
  /-- there is a worker thread -/
  worker : Bool
  /-- how often `activate` was called -/
  activations : ℕ
  deriving DecidableEq, Repr

def virtioRingFEventIdx : ℕ := 29

namespace Device

def new (kind : DeviceKind) (availFeatures : U64) (config : List Byte)
    (shmRegion : Option VirtioShmRegion) : Device where
  kind := kind
  availFeatures := availFeatures
  ackedFeatures := 0
  config := config
  shmRegion := shmRegion
  queues := kind.queueSizes.map Queue.new
  activated := false
  worker := false
  activations := 0

variable (d : Device)

/-- The set of feature bits shifted by `page * 32`. -/
def availFeaturesByPage (page : U32) : U32 :=
  if page = 0 then d.availFeatures.setWidth 32
  else if page = 1 then (d.availFeatures >>> 32).setWidth 32
  else 0

def setAckedFeatures (acked : U64) : Device := { d with ackedFeatures := acked }

def pageBits (page value : U32) : U64 :=
  if page = 0 then value.setWidth 64
  else if page = 1 then value.setWidth 64 <<< 32
  else 0

/-- Acknowledges that this set of features should be enabled. Features that were not offered do
not count. -/
def ackFeaturesByPage (page value : U32) : Device :=
  let v := pageBits page value
  let unrequestedFeatures := v &&& ~~~d.availFeatures
  let v := if unrequestedFeatures ≠ 0 then v &&& ~~~unrequestedFeatures else v
  d.setAckedFeatures (d.ackedFeatures ||| v)

/-- `read_config` of the devices with a configuration struct: the bytes from the offset on, as far
as struct and buffer go. -/
def readConfigStruct (config : List Byte) (offset : ℕ) (data : List Byte) : List Byte :=
  if config.length ≤ offset then data
  else
    let src := (config.drop offset).take data.length
    src ++ data.drop src.length

/-- Reads the configuration space; a request the device does not know leaves the buffer as it
is. -/
def readConfig (offset : ℕ) (data : List Byte) : List Byte :=
  match d.kind with
  | .rng => data
  | .vsock =>
    if offset = 0 ∧ data.length = 8 then d.config.take 8
    else if offset = 0 ∧ data.length = 4 then d.config.take 4
    else if offset = 4 ∧ data.length = 4 then (d.config.drop 4).take 4
    else data
  | _ => readConfigStruct d.config offset data

def writeConfig (_offset : ℕ) (_data : List Byte) : Device := d

def isActivated : Bool := d.activated

/-- `set_event_idx` on the queues with these indices. -/
def setEventIdx (queues : List Queue) (indices : List ℕ) (enabled : Bool) : List Queue :=
  queues.mapIdx fun i q => if i ∈ indices then q.setEventIdx enabled else q

/-- Whether `activate` returns; it panics in the other cases, or returns an error that the
transport's `expect` turns into a panic. -/
def canActivate : Bool :=
  let a := d.kind.activation
  !(a.ownsWorker && d.worker) && a.numQueues.all (· == d.queues.length) &&
    !(a.needsShm && d.shmRegion.isNone) && a.eventIdxQueues.all (· < d.queues.length)

def activate : Option Device :=
  if d.canActivate then
    let eventIdx := d.ackedFeatures &&& (1 <<< virtioRingFEventIdx) != 0
    some { d with
      queues := setEventIdx d.queues d.kind.activation.eventIdxQueues eventIdx
      activated := true
      worker := d.worker || d.kind.activation.ownsWorker
      activations := d.activations + 1 }
  else none

def reset : Device × Bool :=
  if d.kind.resetDeactivates then ({ d with activated := false, worker := false }, true)
  else (d, d.kind.acceptsReset)

def resetQueues : Device :=
  { d with queues := d.queues.map fun q => Queue.new q.getMaxSize }

end Device

end Shelter.Virtio
