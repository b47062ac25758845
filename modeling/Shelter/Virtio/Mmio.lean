import Shelter.Lib.Run
import Shelter.Virtio.Device

/-!
# The MMIO transport

`MmioTransport` is the register file that the guest driver sees, in front of a device. `read` and
`write` follow `mmio.rs`; a write returns `none` where the code panics, which it does only when
the device cannot be activated. The interrupt status that transport and device share is a field of
the transport.

A guest run is a list of `Access`es, run by `Run.run` from a `fresh` transport.
-/

open Bytes

namespace Shelter.Virtio

/-! The device status field. -/

namespace DeviceStatus

def init : U32 := 0
def acknowledge : U32 := 1
def driver : U32 := 2
def failed : U32 := 128
def featuresOk : U32 := 8
def driverOk : U32 := 4

end DeviceStatus

open DeviceStatus

def vendorId : U32 := 0
def mmioMagicValue : U32 := 0x74726976
def mmioVersion : U32 := 2

/-- The transport of a device. Guest memory is not in it: `activate` hands it to the device. -/
structure MmioTransport where
  device : Device
  featuresSelect : U32
  ackedFeaturesSelect : U32
  queueSelect : U32
  deviceStatus : U32
  configGeneration : U32
  interruptStatus : U64
  /-- the ids of the registered queue events -/
  queueEvts : List U32
  /-- the queue events signalled so far -/
  notified : List U32
  shmRegionSelect : U32
  deriving DecidableEq, Repr

namespace MmioTransport

/-- Constructs a new MMIO transport for the given virtio device. -/
def new (device : Device) (queueEvts : List U32) : MmioTransport where
  device := device
  featuresSelect := 0
  ackedFeaturesSelect := 0
  queueSelect := 0
  deviceStatus := init
  configGeneration := 0
  interruptStatus := 0
  queueEvts := queueEvts
  notified := []
  shmRegionSelect := 0

variable (s : MmioTransport)

def checkDeviceStatus (set clr : U32) : Bool :=
  s.deviceStatus &&& (set ||| clr) == set

def withQueue (d : U32) (f : Queue → U32) : U32 :=
  match s.device.queues[s.queueSelect.toNat]? with
  | some queue => f queue
  | none => d

def withQueueMut (f : Queue → Queue) : MmioTransport :=
  { s with device := { s.device with queues := s.device.queues.modify s.queueSelect.toNat f } }

/-- Writes to a queue count only while `FEATURES_OK` is set and `FAILED` is not. -/
def updateQueueField (f : Queue → Queue) : MmioTransport :=
  if s.checkDeviceStatus featuresOk failed then s.withQueueMut f else s

def reset : MmioTransport :=
  { s with
    featuresSelect := 0
    ackedFeaturesSelect := 0
    queueSelect := 0
    interruptStatus := 0
    deviceStatus := init
    device := s.device.resetQueues }

/-- An active device is asked to reset; if the backend does not support it, the device is left
marked as `FAILED`. -/
def resetBackend : MmioTransport :=
  if s.device.isActivated then
    let (d, ok) := s.device.reset
    { s with device := d, deviceStatus := if ok then s.deviceStatus else s.deviceStatus ||| failed }
  else s

/-- The driver asks for a reset. A device marked as `FAILED` stays as it is. -/
def requestReset : MmioTransport :=
  let s' := s.resetBackend
  if s'.deviceStatus &&& failed = 0 then s'.reset else s'

/-- Update device status according to the state machine defined by VirtIO Spec 1.0. What is
matched are the bits that change; what is stored is the value written. -/
def setDeviceStatus (status : U32) : Option MmioTransport :=
  let changed := ~~~s.deviceStatus &&& status
  if changed = acknowledge ∧ s.deviceStatus = init then
    some { s with deviceStatus := status }
  else if changed = driver ∧ s.deviceStatus = acknowledge then
    some { s with deviceStatus := status }
  else if changed = featuresOk ∧ s.deviceStatus = acknowledge ||| driver then
    some { s with deviceStatus := status }
  else if changed = driverOk ∧ s.deviceStatus = acknowledge ||| driver ||| featuresOk then
    if s.device.isActivated then some { s with deviceStatus := status }
    else s.device.activate.map fun d => { s with deviceStatus := status, device := d }
  else if status &&& failed ≠ 0 then
    some { s with deviceStatus := s.deviceStatus ||| failed }
  else if status = 0 then some s.requestReset
  else some s

/-! ## Registers -/

/-- Base and length of the selected shared memory region; without one the length is -1. -/
def shmBaseLen : U64 × U64 :=
  if 1 < s.shmRegionSelect then (0, ~~~0)
  else
    match s.device.shmRegion with
    | some region => (region.guestAddr, region.size)
    | none => (0, ~~~0)

variable (offset : ℕ)

def readRegister : Option U32 :=
  match offset with
  | 0x0 => some mmioMagicValue
  | 0x04 => some mmioVersion
  | 0x08 => some s.device.kind.deviceType
  | 0x0c => some vendorId
  | 0x10 =>
    let features := s.device.availFeaturesByPage s.featuresSelect
    -- enable support of VirtIO Version 1
    some (if s.featuresSelect = 1 then features ||| 1 else features)
  | 0x34 => some (s.withQueue 0 fun q => q.getMaxSize.setWidth 32)
  | 0x44 => some (s.withQueue 0 fun q => if q.ready then 1 else 0)
  | 0x60 => some (s.interruptStatus.setWidth 32)
  | 0x70 => some s.deviceStatus
  | 0xfc => some s.configGeneration
  | _ =>
    if 0xb0 ≤ offset ∧ offset ≤ 0xbc then
      match offset with
      | 0xb0 => some (s.shmBaseLen.2.setWidth 32)
      | 0xb4 => some ((s.shmBaseLen.2 >>> 32).setWidth 32)
      | 0xb8 => some (s.shmBaseLen.1.setWidth 32)
      | 0xbc => some ((s.shmBaseLen.1 >>> 32).setWidth 32)
      | _ => some 0
    else none

variable (data : List Byte)

/-- A read fills the buffer `data`, or leaves it as it is. -/
def read : List Byte :=
  if offset ≤ 0xff ∧ data.length = 4 then
    match s.readRegister offset with
    | some v => leBytes 4 v.toNat
    | none => data
  else if 0x100 ≤ offset ∧ offset ≤ 0xfff then s.device.readConfig (offset - 0x100) data
  else data

def hi (v : U64) (x : U32) : U64 := v &&& 0xffffffff ||| x.setWidth 64 <<< 32

def lo (v : U64) (x : U32) : U64 := v &&& ~~~0xffffffff ||| x.setWidth 64

def queueField (offset : ℕ) : Option (U32 → Queue → Queue) :=
  match offset with
  | 0x38 => some fun v q => { q with size := v.setWidth 16 }
  | 0x44 => some fun v q => { q with ready := v == 1 }
  | 0x80 => some fun v q => { q with descTable := lo q.descTable v }
  | 0x84 => some fun v q => { q with descTable := hi q.descTable v }
  | 0x90 => some fun v q => { q with availRing := lo q.availRing v }
  | 0x94 => some fun v q => { q with availRing := hi q.availRing v }
  | 0xa0 => some fun v q => { q with usedRing := lo q.usedRing v }
  | 0xa4 => some fun v q => { q with usedRing := hi q.usedRing v }
  | _ => none

/-- The gate of the feature register: `DRIVER` is set, `FEATURES_OK` and `FAILED` are not. -/
def ackOpen : Bool := s.checkDeviceStatus driver (featuresOk ||| failed)

def writeRegister (v : U32) : Option MmioTransport :=
  match offset with
  | 0x14 => some { s with featuresSelect := v }
  | 0x20 =>
    if s.ackOpen then
      some { s with device := s.device.ackFeaturesByPage s.ackedFeaturesSelect v }
    else some s
  | 0x24 => some { s with ackedFeaturesSelect := v }
  | 0x30 => some { s with queueSelect := v }
  | 0x50 => if v ∈ s.queueEvts then some { s with notified := s.notified ++ [v] } else some s
  | 0x64 =>
    if s.checkDeviceStatus driverOk 0 then
      some { s with interruptStatus := s.interruptStatus &&& ~~~v.setWidth 64 }
    else some s
  | 0x70 => s.setDeviceStatus v
  | 0xac => some { s with shmRegionSelect := v }
  | _ =>
    match queueField offset with
    | some f => some (s.updateQueueField (f v))
    | none => some s

def readLeU32 : U32 := BitVec.ofNat 32 (leNat data)

def write : Option MmioTransport :=
  if offset ≤ 0xff ∧ data.length = 4 then s.writeRegister offset (readLeU32 data)
  else if 0x100 ≤ offset ∧ offset ≤ 0xfff then
    if s.checkDeviceStatus driver failed then
      some { s with device := s.device.writeConfig (offset - 0x100) data }
    else some s
  else some s

end MmioTransport

inductive Access
  | read (offset : ℕ) (data : List Byte)
  | write (offset : ℕ) (data : List Byte)
  deriving DecidableEq, Repr

namespace MmioTransport

def access (s : MmioTransport) : Access → Option MmioTransport
  | .read _ _ => some s
  | .write offset data => s.write offset data

def fresh (kind : DeviceKind) (availFeatures : U64) (config : List Byte)
    (shmRegion : Option VirtioShmRegion) (queueEvts : List U32) : MmioTransport :=
  new (Device.new kind availFeatures config shmRegion) queueEvts

/-! ## What an access can do -/

/-- The bit that the driver sets next, on its way through the initialisation. -/
def nextBit (status : U32) : Option U32 :=
  if status = init then some acknowledge
  else if status = acknowledge then some driver
  else if status = acknowledge ||| driver then some featuresOk
  else if status = acknowledge ||| driver ||| featuresOk then some driverOk
  else none

/-- The only bit that the write `v` sets is the next one. -/
def Advances (status v : U32) : Prop := nextBit status = some (~~~status &&& v)
  deriving Decidable

variable {v : U32} {s s' : MmioTransport} {offset : ℕ} {a : Access}

theorem advances_iff {status : U32} :
    Advances status v ↔
      (~~~status &&& v = acknowledge ∧ status = init) ∨
      (~~~status &&& v = driver ∧ status = acknowledge) ∨
      (~~~status &&& v = featuresOk ∧ status = acknowledge ||| driver) ∨
      (~~~status &&& v = driverOk ∧ status = acknowledge ||| driver ||| featuresOk) := by
  unfold Advances nextBit
  split_ifs with h0 h1 h3 h11
  · subst h0
    simp [eq_comm, init, acknowledge, driver, featuresOk]
  · subst h1
    simp [eq_comm, init, acknowledge, driver, featuresOk]
  · subst h3
    simp [eq_comm, init, acknowledge, driver, featuresOk]
  · subst h11
    simp [eq_comm, init, acknowledge, driver, featuresOk]
  · simp [h0, h1, h3, h11]

theorem setDeviceStatus_eq (s : MmioTransport) (v : U32) :
    s.setDeviceStatus v =
      if Advances s.deviceStatus v then
        if s.deviceStatus = 11 ∧ s.device.activated = false then
          s.device.activate.map fun d => { s with deviceStatus := v, device := d }
        else some { s with deviceStatus := v }
      else if v &&& failed ≠ 0 then some { s with deviceStatus := s.deviceStatus ||| failed }
      else if v = 0 then some s.requestReset
      else some s := by
  unfold setDeviceStatus
  by_cases h : Advances s.deviceStatus v
  · rw [if_pos h]
    -- the bits set so far tell the four steps apart
    have hne : ∀ {x y : U32} {p : Prop}, s.deviceStatus = x → x ≠ y →
        ¬ (p ∧ s.deviceStatus = y) := fun hs hxy h' => hxy (hs.symm.trans h'.2)
    have hne' : ∀ {x : U32} {p : Prop}, s.deviceStatus = x → x ≠ 11 →
        ¬ (s.deviceStatus = 11 ∧ p) := fun hs hx h' => hx (hs.symm.trans h'.1)
    rcases advances_iff.mp h with ⟨hc, hs⟩ | ⟨hc, hs⟩ | ⟨hc, hs⟩ | ⟨hc, hs⟩
    · rw [if_pos ⟨hc, hs⟩, if_neg (hne' hs (by decide))]
    · rw [if_neg (hne hs (by decide)), if_pos ⟨hc, hs⟩, if_neg (hne' hs (by decide))]
    · rw [if_neg (hne hs (by decide)), if_neg (hne hs (by decide)), if_pos ⟨hc, hs⟩,
        if_neg (hne' hs (by decide))]
    · rw [if_neg (hne hs (by decide)), if_neg (hne hs (by decide)), if_neg (hne hs (by decide)),
        if_pos ⟨hc, hs⟩, Device.isActivated]
      cases s.device.activated with
      | true => rw [if_pos rfl, if_neg (by simp)]
      | false => rw [if_neg (by simp), if_pos ⟨hs, rfl⟩]
  · have hn := mt advances_iff.mpr h
    rw [if_neg h, if_neg fun h' => hn (.inl h'), if_neg fun h' => hn (.inr (.inl h')),
      if_neg fun h' => hn (.inr (.inr (.inl h'))),
      if_neg fun h' => hn (.inr (.inr (.inr h')))]

theorem resetBackend_device (s : MmioTransport) :
    s.resetBackend.device.ackedFeatures = s.device.ackedFeatures ∧
      s.resetBackend.device.queues = s.device.queues ∧
      s.resetBackend.device.activations = s.device.activations := by
  unfold resetBackend Device.reset
  split_ifs <;> exact ⟨rfl, rfl, rfl⟩

theorem resetBackend_status (s : MmioTransport) :
    s.resetBackend.deviceStatus = s.deviceStatus ∨
      s.resetBackend.deviceStatus = s.deviceStatus ||| failed := by
  unfold resetBackend
  split_ifs
  · show (if s.device.reset.2 then _ else _) = _ ∨ (if s.device.reset.2 then _ else _) = _
    cases s.device.reset.2 with
    | true => exact .inl rfl
    | false => exact .inr rfl
  · exact .inl rfl

theorem requestReset_cases (s : MmioTransport) :
    s.requestReset = s.resetBackend.reset ∨ s.requestReset = s.resetBackend := by
  dsimp only [requestReset]
  split
  · exact .inl rfl
  · exact .inr rfl

theorem requestReset_status (s : MmioTransport) :
    s.requestReset.deviceStatus = init ∨
      s.requestReset.deviceStatus = s.deviceStatus ∨
      s.requestReset.deviceStatus = s.deviceStatus ||| failed := by
  rcases s.requestReset_cases with h | h <;> rw [h]
  · exact .inl rfl
  · exact .inr s.resetBackend_status

theorem requestReset_activations (s : MmioTransport) :
    s.requestReset.device.activations = s.device.activations := by
  rcases s.requestReset_cases with h | h <;> rw [h] <;> exact s.resetBackend_device.2.2

/-- What an access does to the device and its status. -/
inductive Effect (s : MmioTransport) : Access → MmioTransport → Prop
  /-- nothing, though a selector, the interrupt status or the events may change -/
  | quiet (a : Access) (s' : MmioTransport) : s'.device = s.device →
    s'.deviceStatus = s.deviceStatus → s'.queueEvts = s.queueEvts →
    s'.configGeneration = s.configGeneration → Effect s a s'
  | ack (data : List Byte) : data.length = 4 → s.ackOpen = true →
    Effect s (.write 0x20 data)
      { s with device := s.device.ackFeaturesByPage s.ackedFeaturesSelect (readLeU32 data) }
  | queue (offset : ℕ) (data : List Byte) (f : U32 → Queue → Queue) : data.length = 4 →
    queueField offset = some f → s.checkDeviceStatus featuresOk failed = true →
    Effect s (.write offset data) (s.withQueueMut (f (readLeU32 data)))
  | status (data : List Byte) (s' : MmioTransport) : data.length = 4 →
    s.setDeviceStatus (readLeU32 data) = some s' → Effect s (.write 0x70 data) s'

theorem effect_of_writeRegister {data : List Byte} (hd : data.length = 4)
    (h : s.writeRegister offset (readLeU32 data) = some s') : Effect s (.write offset data) s' := by
  unfold writeRegister at h
  split at h
  case h_2 =>
    split_ifs at h with ho
    · cases h
      exact .ack data hd ho
    · cases h
      exact .quiet _ _ rfl rfl rfl rfl
  case h_5 =>
    split_ifs at h <;> obtain rfl := Option.some.inj h <;> exact .quiet _ _ rfl rfl rfl rfl
  case h_6 =>
    split_ifs at h <;> obtain rfl := Option.some.inj h <;> exact .quiet _ _ rfl rfl rfl rfl
  case h_7 => exact .status data s' hd h
  case h_9 =>
    split at h
    next f hf =>
      cases h
      unfold updateQueueField
      split_ifs with hg
      · exact .queue offset data f hd hf hg
      · exact .quiet _ _ rfl rfl rfl rfl
    next =>
      cases h
      exact .quiet _ _ rfl rfl rfl rfl
  all_goals
    cases h
    exact .quiet _ _ rfl rfl rfl rfl

theorem effect_of_access (h : s.access a = some s') : Effect s a s' := by
  cases a with
  | read offset data =>
    cases h
    exact .quiet _ _ rfl rfl rfl rfl
  | write offset data =>
    have h : s.write offset data = some s' := h
    unfold write at h
    split_ifs at h with h1 h2 h3
    · exact effect_of_writeRegister h1.2 h
    all_goals
      cases h
      exact .quiet _ _ rfl rfl rfl rfl

/-! ## What no access changes -/

/-- What is fixed when transport and device are created. -/
structure SameStatic (s s' : MmioTransport) : Prop where
  kind : s'.device.kind = s.device.kind
  availFeatures : s'.device.availFeatures = s.device.availFeatures
  config : s'.device.config = s.device.config
  shmRegion : s'.device.shmRegion = s.device.shmRegion
  maxSizes : s'.device.queues.map Queue.getMaxSize = s.device.queues.map Queue.getMaxSize
  queueEvts : s'.queueEvts = s.queueEvts
  configGeneration : s'.configGeneration = s.configGeneration

theorem SameStatic.refl (s : MmioTransport) : SameStatic s s := ⟨rfl, rfl, rfl, rfl, rfl, rfl, rfl⟩

theorem SameStatic.trans {s₁ s₂ s₃ : MmioTransport} (h : SameStatic s₁ s₂)
    (h' : SameStatic s₂ s₃) : SameStatic s₁ s₃ :=
  ⟨h'.kind.trans h.kind, h'.availFeatures.trans h.availFeatures, h'.config.trans h.config,
    h'.shmRegion.trans h.shmRegion, h'.maxSizes.trans h.maxSizes, h'.queueEvts.trans h.queueEvts,
    h'.configGeneration.trans h.configGeneration⟩

theorem queueField_maxSize {f : U32 → Queue → Queue} (h : queueField offset = some f) (v : U32)
    (q : Queue) : (f v q).getMaxSize = q.getMaxSize := by
  unfold queueField at h
  split at h
  case h_9 => simp at h
  all_goals
    cases h
    rfl

theorem map_modify_of_eq {α β : Type} {g : α → β} {f : α → α} (h : ∀ x, g (f x) = g x)
    (xs : List α) (i : ℕ) : (xs.modify i f).map g = xs.map g := by
  refine List.ext_getElem? fun j => ?_
  simp only [List.getElem?_map, List.getElem?_modify]
  cases xs[j]? with
  | none => rfl
  | some x => by_cases hij : i = j <;> simp [hij, h]

theorem sameStatic_activate {d : Device} (h : s.device.activate = some d) (v : U32) :
    SameStatic s { s with deviceStatus := v, device := d } := by
  unfold Device.activate at h
  split_ifs at h
  cases h
  refine ⟨rfl, rfl, rfl, rfl, ?_, rfl, rfl⟩
  refine List.ext_getElem? fun j => ?_
  simp only [Device.setEventIdx, List.getElem?_map, List.getElem?_mapIdx]
  cases s.device.queues[j]? with
  | none => rfl
  | some q => simp only [Option.map_some]; split_ifs <;> rfl

theorem sameStatic_resetBackend (s : MmioTransport) : SameStatic s s.resetBackend := by
  unfold resetBackend Device.reset
  split_ifs <;> exact ⟨rfl, rfl, rfl, rfl, rfl, rfl, rfl⟩

theorem sameStatic_reset (s : MmioTransport) : SameStatic s s.reset :=
  ⟨rfl, rfl, rfl, rfl, by simp [reset, Device.resetQueues, Queue.new, Queue.getMaxSize], rfl, rfl⟩

theorem sameStatic_requestReset (s : MmioTransport) : SameStatic s s.requestReset := by
  rcases s.requestReset_cases with h | h <;> rw [h]
  · exact s.sameStatic_resetBackend.trans (sameStatic_reset _)
  · exact s.sameStatic_resetBackend

theorem sameStatic_setDeviceStatus (h : s.setDeviceStatus v = some s') : SameStatic s s' := by
  rw [setDeviceStatus_eq] at h
  split_ifs at h
  · obtain ⟨d, hd, rfl⟩ := Option.map_eq_some_iff.mp h
    exact sameStatic_activate hd v
  all_goals cases h
  · exact ⟨rfl, rfl, rfl, rfl, rfl, rfl, rfl⟩
  · exact ⟨rfl, rfl, rfl, rfl, rfl, rfl, rfl⟩
  · exact s.sameStatic_requestReset
  · exact SameStatic.refl _

theorem sameStatic_of_access (h : s.access a = some s') : SameStatic s s' := by
  cases effect_of_access h with
  | quiet _ _ hd _ he hg =>
    exact ⟨by rw [hd], by rw [hd], by rw [hd], by rw [hd], by rw [hd], he, hg⟩
  | ack data _ _ => exact ⟨rfl, rfl, rfl, rfl, rfl, rfl, rfl⟩
  | queue offset data f _ hf _ =>
    exact ⟨rfl, rfl, rfl, rfl, map_modify_of_eq (queueField_maxSize hf _) _ _, rfl, rfl⟩
  | status data _ _ hset => exact sameStatic_setDeviceStatus hset

theorem sameStatic_of_run {es : List Access} (h : Run.run access s es = some s') :
    SameStatic s s' :=
  Run.run_invariant (P := SameStatic s) (fun _ _ _ hs h => hs.trans (sameStatic_of_access h))
    (SameStatic.refl s) h

end MmioTransport

end Shelter.Virtio
