import Shelter.Virtio.MmioFeatures

/-!
# Reset

A driver resets a device by writing 0 to its status. The comments of `reset` keep only the events
and `config_generation`; in fact the acknowledged features and the selector of the shared memory
region survive as well, and a device marked as `FAILED` is not reset at all.

`reset_observably_fresh` says when a reset device cannot be told from a new one: `FreshlySeen`, a
simulation, relates the two exactly under these conditions.
-/

open Bytes Run

namespace Shelter.Virtio

open DeviceStatus BitVec List

variable (s : MmioTransport)

namespace MmioTransport

/-- What the guest sees of an access, and what it leaves: the data read, and, unless the VMM
crashes, the negotiated features and the configuration of the queues. -/
def observation (a : Access) : Option (List Byte) × Option (U64 × List QueueConfig) :=
  (match a with
    | .read offset data => some (s.read offset data)
    | .write _ _ => none,
   (s.access a).map fun s' => (s'.device.ackedFeatures, s'.device.queues.map queueConfig))

end MmioTransport

/-! ## Devices that are seen alike -/

def DeviceKind.StaysActivated (k : DeviceKind) : Prop :=
  k.acceptsReset = true ∧ k.resetDeactivates = false

/-- Devices that the transport sees alike. Whether they are activated may differ for the kinds where
nothing depends on it. -/
structure SeenAlike (d e : Device) : Prop where
  kind : d.kind = e.kind
  availFeatures : d.availFeatures = e.availFeatures
  acked : d.ackedFeatures = e.ackedFeatures
  config : d.config = e.config
  shmRegion : d.shmRegion = e.shmRegion
  queues : d.queues = e.queues
  numQueues : e.queues.length = e.kind.queueSizes.length
  activation : e.kind.StaysActivated ∨ d.activated = e.activated ∧ d.worker = e.worker

namespace SeenAlike

open DeviceKind

variable {d e : Device}

theorem staysActivated_iff {k : DeviceKind} :
    k.StaysActivated ↔ k = .rng ∨ ∃ p, k = .console p := by
  unfold StaysActivated
  cases k <;> simp [acceptsReset, resetDeactivates]

theorem activate_of_stays (h : d.kind.StaysActivated)
    (hn : d.queues.length = d.kind.queueSizes.length) :
    d.activate = some { d with activated := true, activations := d.activations + 1 } := by
  have hq : ∀ b, Device.setEventIdx d.queues [] b = d.queues := by
    intro b
    simp [Device.setEventIdx, mapIdx_eq_iff]
  unfold Device.activate Device.canActivate
  rcases staysActivated_iff.mp h with hk | ⟨p, hk⟩
  · rw [hk] at hn ⊢
    simp [DeviceKind.activation, hn, hq, queueSizes]
  · rw [hk]
    simp [DeviceKind.activation, hq]

/-- Devices seen alike, with the shared memory region of `d`. -/
def WithRegionOf (d : Device) (d' e' : Device) : Prop :=
  SeenAlike d' e' ∧ d'.shmRegion = d.shmRegion

theorem activate (h : SeenAlike d e) (hs : ¬ e.kind.StaysActivated) :
    Option.Rel (WithRegionOf d) d.activate e.activate := by
  obtain ⟨h1, h2⟩ := h.activation.resolve_left hs
  have hc : d.canActivate = e.canActivate := by
    unfold Device.canActivate
    rw [h.kind, h2, h.queues, h.shmRegion]
  unfold Device.activate
  rw [hc]
  split_ifs
  · refine .some ⟨{ h with queues := ?_, numQueues := ?_, activation := .inr ⟨rfl, ?_⟩ }, rfl⟩
    · show Device.setEventIdx _ _ _ = Device.setEventIdx _ _ _
      rw [h.queues, h.kind, h.acked]
    · show (Device.setEventIdx _ _ _).length = _
      unfold Device.setEventIdx
      rw [length_mapIdx]
      exact h.numQueues
    · show (d.worker || _) = (e.worker || _)
      rw [h2, h.kind]
  · exact .none

/-- The device after a status write that completes the initialisation. -/
def initialised (d : Device) : Option Device :=
  if d.activated = false then d.activate else some d

theorem initialised_rel (h : SeenAlike d e) :
    Option.Rel (WithRegionOf d) (initialised d) (initialised e) := by
  unfold initialised
  by_cases hs : e.kind.StaysActivated
  · rw [activate_of_stays (h.kind ▸ hs) (by rw [h.queues, h.kind]; exact h.numQueues),
      activate_of_stays hs h.numQueues]
    split_ifs <;> exact .some ⟨{ h with activation := .inl hs }, rfl⟩
  · rw [← (h.activation.resolve_left hs).1]
    split_ifs
    · exact h.activate hs
    · exact .some ⟨h, rfl⟩

theorem ackFeaturesByPage (h : SeenAlike d e) (page value : U32) :
    SeenAlike (d.ackFeaturesByPage page value) (e.ackFeaturesByPage page value) := by
  refine { h with acked := ?_ }
  rw [Device.ackFeaturesByPage_acked, Device.ackFeaturesByPage_acked, h.acked, h.availFeatures]

theorem modify (h : SeenAlike d e) (i : ℕ) (f : Queue → Queue) :
    SeenAlike { d with queues := d.queues.modify i f } { e with queues := e.queues.modify i f } :=
  { h with
    queues := by simp only [h.queues], numQueues := (length_modify _ _ _).trans h.numQueues }

theorem reset (h : SeenAlike d e) : WithRegionOf d d.reset.1 e.reset.1 ∧ d.reset.2 = e.reset.2 := by
  unfold Device.reset
  simp only [h.kind]
  split_ifs
  · exact ⟨⟨{ h with kind := rfl, activation := .inr ⟨rfl, rfl⟩ }, rfl⟩, rfl⟩
  · exact ⟨⟨h, rfl⟩, rfl⟩

theorem resetQueues (h : SeenAlike d e) : SeenAlike d.resetQueues e.resetQueues :=
  { h with
    queues := by simp only [Device.resetQueues, h.queues]
    numQueues := (length_map _).trans h.numQueues }

end SeenAlike

namespace MmioTransport

/-- Two transports that no sequence of accesses tells apart: all registers read alike. -/
structure FreshlySeen (s t : MmioTransport) : Prop where
  device : SeenAlike s.device t.device
  featuresSelect : s.featuresSelect = t.featuresSelect
  ackedFeaturesSelect : s.ackedFeaturesSelect = t.ackedFeaturesSelect
  queueSelect : s.queueSelect = t.queueSelect
  deviceStatus : s.deviceStatus = t.deviceStatus
  configGeneration : s.configGeneration = t.configGeneration
  interruptStatus : s.interruptStatus = t.interruptStatus
  queueEvts : s.queueEvts = t.queueEvts
  shm : s.shmBaseLen = t.shmBaseLen

/-! ## Reads -/

section Simulation

variable {s t : MmioTransport}

theorem FreshlySeen.readRegister (h : FreshlySeen s t) (offset : ℕ) :
    s.readRegister offset = t.readRegister offset := by
  unfold MmioTransport.readRegister Device.availFeaturesByPage withQueue
  rw [h.device.kind, h.device.availFeatures, h.featuresSelect, h.device.queues, h.queueSelect,
    h.interruptStatus, h.deviceStatus, h.configGeneration, h.shm]

theorem FreshlySeen.read (h : FreshlySeen s t) (offset : ℕ) (data : List Byte) :
    s.read offset data = t.read offset data := by
  unfold MmioTransport.read Device.readConfig
  rw [h.readRegister, h.device.kind, h.device.config]

/-! ## Writes -/

theorem shmBaseLen_congr {s' t' : MmioTransport} (h : FreshlySeen s t)
    (h1 : s'.device.shmRegion = s.device.shmRegion) (h2 : t'.device.shmRegion = t.device.shmRegion)
    (h3 : s'.shmRegionSelect = s.shmRegionSelect) (h4 : t'.shmRegionSelect = t.shmRegionSelect) :
    s'.shmBaseLen = t'.shmBaseLen := by
  have hs : s'.shmBaseLen = s.shmBaseLen := by unfold shmBaseLen; rw [h1, h3]
  have ht : t'.shmBaseLen = t.shmBaseLen := by unfold shmBaseLen; rw [h2, h4]
  rw [hs, ht, h.shm]

theorem FreshlySeen.withDevice (h : FreshlySeen s t) {d e : Device}
    (hd : SeenAlike.WithRegionOf s.device d e) {v w : U32} (hv : v = w) :
    FreshlySeen { s with device := d, deviceStatus := v }
      { t with device := e, deviceStatus := w } :=
  { h with
    device := hd.1
    deviceStatus := hv
    shm := shmBaseLen_congr h hd.2 (hd.1.shmRegion.symm.trans (hd.2.trans h.device.shmRegion)) rfl
      rfl }

theorem FreshlySeen.reset (h : FreshlySeen s t) : FreshlySeen s.reset t.reset :=
  ⟨h.device.resetQueues, rfl, rfl, rfl, rfl, h.configGeneration, rfl, h.queueEvts,
    shmBaseLen_congr h rfl rfl rfl rfl⟩

theorem FreshlySeen.resetBackend (h : FreshlySeen s t) :
    FreshlySeen s.resetBackend t.resetBackend := by
  by_cases hs : t.device.kind.StaysActivated
  · -- nothing changes, whether the device is activated or not
    have hreset : ∀ {u : MmioTransport}, u.device.kind.StaysActivated → u.resetBackend = u := by
      intro u hu
      have hr : u.device.reset = (u.device, true) := by
        unfold Device.reset
        rw [hu.2, if_neg (by simp), hu.1]
      unfold MmioTransport.resetBackend
      rw [hr]
      split_ifs
      · rfl
      · rfl
    rw [hreset hs, hreset (h.device.kind ▸ hs)]
    exact h
  · unfold MmioTransport.resetBackend Device.isActivated
    rw [(h.device.activation.resolve_left hs).1]
    split_ifs
    · have hr := h.device.reset
      refine h.withDevice hr.1 ?_
      show (if s.device.reset.2 then _ else _) = (if t.device.reset.2 then _ else _)
      rw [hr.2, h.deviceStatus]
    · exact h

theorem FreshlySeen.requestReset (h : FreshlySeen s t) :
    FreshlySeen s.requestReset t.requestReset := by
  have hb := h.resetBackend
  unfold MmioTransport.requestReset
  simp only [hb.deviceStatus]
  split_ifs
  · exact hb.reset
  · exact hb

theorem advance_eq (u : MmioTransport) (v : U32) (h : u.deviceStatus = 11) :
    (if u.deviceStatus = 11 ∧ u.device.activated = false then
        u.device.activate.map fun d => { u with deviceStatus := v, device := d }
      else some { u with deviceStatus := v }) =
      (SeenAlike.initialised u.device).map fun d => { u with device := d, deviceStatus := v } := by
  unfold SeenAlike.initialised
  by_cases ha : u.device.activated = false
  · rw [if_pos ⟨h, ha⟩, if_pos ha]
  · rw [if_neg fun h' => ha h'.2, if_neg ha]
    rfl

theorem FreshlySeen.setDeviceStatus (h : FreshlySeen s t) (v : U32) :
    Option.Rel FreshlySeen (s.setDeviceStatus v) (t.setDeviceStatus v) := by
  rw [setDeviceStatus_eq, setDeviceStatus_eq]
  by_cases hadv : Advances t.deviceStatus v
  · rw [if_pos (h.deviceStatus ▸ hadv), if_pos hadv]
    by_cases h11 : t.deviceStatus = 11
    · rw [advance_eq s v (h.deviceStatus.trans h11), advance_eq t v h11]
      exact rel_map h.device.initialised_rel fun d e hd => h.withDevice hd rfl
    · rw [if_neg fun h' => h11 (h.deviceStatus.symm.trans h'.1), if_neg fun h' => h11 h'.1]
      exact .some (h.withDevice ⟨h.device, rfl⟩ rfl)
  · rw [if_neg (h.deviceStatus ▸ hadv), if_neg hadv, h.deviceStatus]
    split_ifs
    · exact .some (h.withDevice ⟨h.device, rfl⟩ rfl)
    · exact .some h.requestReset
    · exact .some h

theorem FreshlySeen.updateQueueField (h : FreshlySeen s t) (f : Queue → Queue) :
    FreshlySeen (s.updateQueueField f) (t.updateQueueField f) := by
  unfold MmioTransport.updateQueueField checkDeviceStatus withQueueMut
  rw [h.deviceStatus, h.queueSelect]
  split_ifs
  · exact { h with
      device := h.device.modify t.queueSelect.toNat f, queueSelect := rfl, deviceStatus := rfl,
      shm := shmBaseLen_congr h rfl rfl rfl rfl }
  · exact h

def plainRegisters : List ℕ := [0x14, 0x20, 0x24, 0x30, 0x50, 0x64, 0x70, 0xac]

theorem writeRegister_queueField (s : MmioTransport) {offset : ℕ} (v : U32)
    (h : offset ∉ plainRegisters) : s.writeRegister offset v = some (match queueField offset with
        | some f => s.updateQueueField (f v)
        | none => s) := by
  unfold writeRegister
  split
  iterate 8 exact absurd (by decide) h
  cases queueField offset <;> rfl

theorem FreshlySeen.writeRegister (h : FreshlySeen s t) (offset : ℕ) (v : U32) :
    Option.Rel FreshlySeen (s.writeRegister offset v) (t.writeRegister offset v) := by
  by_cases hp : offset ∈ plainRegisters
  · have hshm : s.shmBaseLen = t.shmBaseLen := h.shm
    simp only [plainRegisters, mem_cons, not_mem_nil, or_false] at hp
    rcases hp with rfl | rfl | rfl | rfl | rfl | rfl | rfl | rfl
    · exact .some { h with featuresSelect := rfl, shm := hshm }
    · unfold MmioTransport.writeRegister ackOpen checkDeviceStatus
      simp only [h.deviceStatus, h.ackedFeaturesSelect]
      split_ifs
      · exact .some { h with
          device := h.device.ackFeaturesByPage _ v, ackedFeaturesSelect := rfl, deviceStatus := rfl,
          shm := hshm }
      · exact .some h
    · exact .some { h with ackedFeaturesSelect := rfl, shm := hshm }
    · exact .some { h with queueSelect := rfl, shm := hshm }
    · unfold MmioTransport.writeRegister
      simp only [h.queueEvts]
      split_ifs
      · exact .some { h with queueEvts := rfl, shm := hshm }
      · exact .some h
    · unfold MmioTransport.writeRegister checkDeviceStatus
      simp only [h.deviceStatus, h.interruptStatus]
      split_ifs
      · exact .some { h with deviceStatus := rfl, interruptStatus := rfl, shm := hshm }
      · exact .some h
    · exact h.setDeviceStatus v
    · -- from now on both select the same region
      refine .some { h with shm := ?_ }
      unfold shmBaseLen
      rw [h.device.shmRegion]
  · rw [writeRegister_queueField s v hp, writeRegister_queueField t v hp]
    refine .some ?_
    cases queueField offset with
    | none => exact h
    | some f => exact h.updateQueueField (f v)

theorem FreshlySeen.write (h : FreshlySeen s t) (offset : ℕ) (data : List Byte) :
    Option.Rel FreshlySeen (s.write offset data) (t.write offset data) := by
  have hc : s.checkDeviceStatus driver failed = t.checkDeviceStatus driver failed := by
    unfold checkDeviceStatus
    rw [h.deviceStatus]
  unfold MmioTransport.write Device.writeConfig
  rw [hc]
  split_ifs
  · exact h.writeRegister offset _
  all_goals exact .some h

theorem FreshlySeen.access (h : FreshlySeen s t) :
    ∀ a, Option.Rel FreshlySeen (s.access a) (t.access a)
  | .read _ _ => .some h
  | .write offset data => h.write offset data

theorem FreshlySeen.observation (h : FreshlySeen s t) (a : Access) :
    s.observation a = t.observation a := by
  have hnext :
      (s.access a).map (fun u => (u.device.ackedFeatures, u.device.queues.map queueConfig)) =
        (t.access a).map fun u => (u.device.ackedFeatures, u.device.queues.map queueConfig) := by
    refine eq_of_rel (rel_map (h.access a) fun s' t' h' => ?_)
    rw [h'.device.acked, h'.device.queues]
  unfold MmioTransport.observation
  rw [hnext]
  cases a with
  | read offset data => simp only [h.read]
  | write offset data => rfl

end Simulation

/-! ## The status write that resets -/

theorem access_reset : s.access (writeU32 0x70 0) = some s.requestReset := by
  show s.setDeviceStatus 0 = _
  have hadv : ¬ Advances s.deviceStatus 0 := by
    unfold Advances nextBit
    rw [show ~~~s.deviceStatus &&& (0 : U32) = 0 from and_zero]
    split_ifs <;> decide
  rw [setDeviceStatus_eq, if_neg hadv, if_neg (by decide), if_pos rfl]

def WorkerActive : Prop := s.device.worker = true → s.device.activated = true

variable {s : MmioTransport}

theorem WorkerActive.requestReset (hs : s.WorkerActive) : s.requestReset.WorkerActive := by
  have hb : s.resetBackend.WorkerActive := by
    unfold resetBackend Device.reset
    split_ifs
    · exact fun h => nomatch h
    · exact hs
    · exact hs
  rcases s.requestReset_cases with h | h <;> rw [h]
  · exact hb
  · exact hb

theorem WorkerActive.access {s' : MmioTransport} {a : Access} (hs : s.WorkerActive)
    (h : s.access a = some s') : s'.WorkerActive := by
  cases effect_of_access h with
  | quiet _ _ hd _ _ _ => exact fun hw => hd ▸ hs (hd ▸ hw)
  | ack | queue => exact hs
  | status data s' hl hset =>
    rw [setDeviceStatus_eq] at hset
    split_ifs at hset
    · obtain ⟨d, hd, rfl⟩ := Option.map_eq_some_iff.mp hset
      unfold Device.activate at hd
      split_ifs at hd
      cases hd
      exact fun _ => rfl
    all_goals cases hset
    · exact hs
    · exact hs
    · exact hs.requestReset
    · exact hs

/-- A device that accepts the reset, or has nothing to reset, is not marked as `FAILED`, and is then
inactive or of a kind where that does not matter. -/
theorem resetBackend_accepted (hs : s.WorkerActive)
    (h : s.device.activated = false ∨ s.device.kind.acceptsReset = true) :
    s.resetBackend.deviceStatus = s.deviceStatus ∧
      (s.device.kind.StaysActivated ∨
        s.resetBackend.device.activated = false ∧ s.resetBackend.device.worker = false) := by
  unfold resetBackend Device.isActivated Device.reset
  split_ifs with ha hd
  · exact ⟨rfl, .inr ⟨rfl, rfl⟩⟩
  · have hk := h.resolve_left (by simp [ha])
    exact ⟨if_pos hk, .inl ⟨hk, Bool.eq_false_of_not_eq_true hd⟩⟩
  · exact ⟨rfl, .inr ⟨Bool.eq_false_of_not_eq_true ha, Bool.eq_false_of_not_eq_true (mt hs ha)⟩⟩

theorem requestReset_failed (h : s.deviceStatus &&& failed ≠ 0) :
    s.requestReset.deviceStatus ≠ 0 := by
  have hb : s.resetBackend.deviceStatus &&& failed ≠ 0 := by
    rcases s.resetBackend_status with he | he <;> rw [he]
    · exact h
    · have hor : (s.deviceStatus ||| failed) &&& failed = failed := by
        ext i hi
        simp only [getElem_and, getElem_or]
        cases failed[i] <;> simp
      rw [hor]
      decide
  intro h0
  have hreset : s.requestReset = s.resetBackend := if_neg hb
  rw [hreset] at h0
  exact hb (by rw [h0]; rfl)

def readU32 (offset : ℕ) : Access := .read offset [0, 0, 0, 0]

/-- The device was not marked as `FAILED`, no features are acknowledged, and the selected region of
shared memory reads as the first one does. -/
structure LeavesNothing (s : MmioTransport) : Prop where
  notFailed : s.deviceStatus &&& failed = 0
  noFeatures : s.device.ackedFeatures = 0
  region : s.shmRegionSelect ≤ 1 ∨ s.device.shmRegion = none ∨ s.device.shmRegion = some ⟨0, ~~~0⟩

theorem resetBackend_shmRegionSelect (s : MmioTransport) :
    s.resetBackend.shmRegionSelect = s.shmRegionSelect := by
  unfold resetBackend
  split_ifs <;> rfl

/-- The reset keeps the selector, and with it what the selected region reads as. -/
theorem requestReset_shmBaseLen (s : MmioTransport) : s.requestReset.shmBaseLen = s.shmBaseLen := by
  have hsel : s.requestReset.shmRegionSelect = s.shmRegionSelect := by
    rcases s.requestReset_cases with h | h <;> rw [h] <;> exact s.resetBackend_shmRegionSelect
  unfold shmBaseLen
  rw [hsel, s.sameStatic_requestReset.shmRegion]

theorem shmBaseLen_eq_iff {t : MmioTransport} (h : s.device.shmRegion = t.device.shmRegion)
    (ht : t.shmRegionSelect = 0) :
    s.shmBaseLen = t.shmBaseLen ↔
      s.shmRegionSelect ≤ 1 ∨ s.device.shmRegion = none ∨ s.device.shmRegion = some ⟨0, ~~~0⟩ := by
  unfold shmBaseLen
  rw [ht, h, if_neg (show ¬ (1 : U32) < 0 by decide)]
  split_ifs with hsel
  · rcases t.device.shmRegion with _ | ⟨addr, size⟩
    · exact iff_of_true rfl (.inr (.inl rfl))
    · constructor
      · rintro ⟨⟩
        exact .inr (.inr rfl)
      · rintro (hle | hnone | hsome)
        · exact absurd hle (BitVec.not_le.mpr hsel)
        · cases hnone
        · cases hsome
          rfl
  · exact iff_of_true rfl (.inl (BitVec.not_lt.mp hsel))

/-! ## When a reset device is like a new one -/

section Reset

variable {kind : DeviceKind} {availFeatures : U64} {config : List Byte}
  {shm : Option VirtioShmRegion} {evts : List U32} {es : List Access} {s : MmioTransport}

/-- Under these conditions the simulation relates the reset transport to a new one. -/
theorem freshlySeen_of_reset
    (hr : run access (fresh kind availFeatures config shm evts) es = some s)
    (hb : s.device.activated = false ∨ s.device.kind.acceptsReset = true) (hs : s.LeavesNothing) :
    FreshlySeen s.requestReset (fresh kind availFeatures config shm evts) := by
  have hw : s.WorkerActive :=
    run_invariant (P := WorkerActive) (fun _ _ _ hu h => hu.access h)
      (fun h => Bool.noConfusion h) hr
  obtain ⟨hstatus, hact⟩ := resetBackend_accepted hw hb
  have hreset : s.requestReset = s.resetBackend.reset := if_pos (hstatus ▸ hs.notFailed)
  have hstatic := sameStatic_of_run hr
  have hstatic' := hstatic.trans s.sameStatic_requestReset
  have hshm := (shmBaseLen_eq_iff hstatic.shmRegion rfl).mpr hs.region
  rw [← requestReset_shmBaseLen] at hshm
  have hq : s.resetBackend.reset.device.queues = kind.queueSizes.map Queue.new := by
    show s.resetBackend.device.queues.map (Queue.new ∘ Queue.getMaxSize) = _
    rw [← map_map, (hstatic.trans s.sameStatic_resetBackend).maxSizes]
    simp [fresh, new, Device.new, Queue.new, Queue.getMaxSize]
  rw [hreset] at hstatic' hshm ⊢
  refine ⟨⟨hstatic'.kind, hstatic'.availFeatures, ?_, hstatic'.config, hstatic'.shmRegion, hq,
    length_map _, ?_⟩, rfl, rfl, rfl, rfl, hstatic'.configGeneration, rfl,
    hstatic'.queueEvts, hshm⟩
  · exact s.resetBackend_device.1.trans hs.noFeatures
  · rw [hstatic.kind] at hact
    exact hact

variable {t : MmioTransport}

theorem register_of_observation {offset : ℕ} {x y : U32} (ho : offset ≤ 0xff)
    (hx : s.readRegister offset = some x) (hy : t.readRegister offset = some y)
    (h : s.observation (readU32 offset) = t.observation (readU32 offset)) : x = y := by
  have hread : ∀ {u : MmioTransport} {z : U32}, u.readRegister offset = some z →
      u.read offset [0, 0, 0, 0] = leBytes 4 z.toNat := by
    intro u z hz
    unfold read
    rw [if_pos ⟨ho, rfl⟩, hz]
  have he : leBytes 4 x.toNat = leBytes 4 y.toNat := by
    rw [← hread hx, ← hread hy]
    exact Option.some.inj (Prod.mk.inj h).1
  rw [← ofNat_leNat_leBytes 4 x (by decide), he, ofNat_leNat_leBytes 4 y (by decide)]

theorem leavesNothing_of_observation (h : ∀ a, s.observation a = t.observation a) :
    s.deviceStatus = t.deviceStatus ∧ s.device.ackedFeatures = t.device.ackedFeatures ∧
      s.shmBaseLen = t.shmBaseLen := by
  have hhalves : ∀ {x y : U64}, x.setWidth 32 = y.setWidth 32 →
      (x >>> 32).setWidth 32 = (y >>> 32).setWidth 32 → x = y := by
    intro x y hlo hhi
    have hlo := congrArg BitVec.toNat hlo
    have hhi := congrArg BitVec.toNat hhi
    simp only [toNat_setWidth, toNat_ushiftRight,
      Nat.shiftRight_eq_div_pow] at hlo hhi
    exact eq_of_toNat_eq (by omega)
  refine ⟨register_of_observation (by decide) rfl rfl (h (readU32 0x70)), ?_, Prod.ext ?_ ?_⟩
  · exact (Prod.mk.inj (Option.some.inj (Prod.mk.inj (h (readU32 0x70))).2)).1
  · exact hhalves (register_of_observation (by decide) rfl rfl (h (readU32 0xb8)))
      (register_of_observation (by decide) rfl rfl (h (readU32 0xbc)))
  · exact hhalves (register_of_observation (by decide) rfl rfl (h (readU32 0xb0)))
      (register_of_observation (by decide) rfl rfl (h (readU32 0xb4)))

/-- **Reset.** After any run on a device that is not activated or accepts a reset, the write of
status 0 leaves a transport that no sequence of accesses tells from a new one, in the data read, the
negotiated features or the configuration of the queues, exactly if the device was not marked as
`FAILED`, no features were acknowledged and no missing region of shared memory was selected. -/
theorem reset_observably_fresh
    (hr : run access (fresh kind availFeatures config shm evts) es = some s)
    (hb : s.device.activated = false ∨ s.device.kind.acceptsReset = true) :
    ∃ s', s.access (writeU32 0x70 0) = some s' ∧
      ((∀ es', observe access observation s' es' =
          observe access observation (fresh kind availFeatures config shm evts) es') ↔
        s.LeavesNothing) := by
  refine ⟨s.requestReset, s.access_reset, fun h => ?_, fun hs => ?_⟩
  · obtain ⟨h1, h2, h3⟩ := leavesNothing_of_observation fun a => (List.cons.inj (h [a])).1
    refine ⟨?_, s.requestReset_acked.symm.trans h2, ?_⟩
    · by_contra hf
      exact requestReset_failed hf h1
    · rw [requestReset_shmBaseLen] at h3
      exact (shmBaseLen_eq_iff (sameStatic_of_run hr).shmRegion rfl).mp h3
  · exact fun es' => observe_eq_of_sim (fun _ _ a h => h.observation a) (fun _ _ a h => h.access a)
      (freshlySeen_of_reset hr hb hs) es'

end Reset

def blockActive : MmioTransport :=
  let t := fresh .block 0x120000000 [] none [0]
  { t with
    deviceStatus := 15
    device := { t.device with activated := true, worker := true, activations := 1 } }

/-- Its reset stops the worker, and the device can be initialised like a new one. -/
theorem reset_observably_fresh_block :
    ∃ s', blockActive.access (writeU32 0x70 0) = some s' ∧
      ∀ es', observe access observation s' es' =
        observe access observation (fresh .block 0x120000000 [] none [0]) es' := by
  obtain ⟨s', hs', h⟩ := reset_observably_fresh
    (show run access (fresh .block 0x120000000 [] none [0]) (initWrites ++ [writeU32 0x70 15]) =
      some blockActive by decide) (by decide)
  exact ⟨s', hs', h.mpr ⟨by decide, by decide, by decide⟩⟩

/-- The transport of a file system with a window of shared memory. -/
def fsTransport : MmioTransport := fresh .fs 0x100000000 [] (some ⟨0x100000000, 0x10000⟩) [0, 1]

/-- None of these devices was activated, and status 0 leaves each of them different from a new one:
a device marked as `FAILED` keeps its status; the acknowledged features are kept; and so is the
selector of the shared memory region, so that the window cannot be found. -/
theorem reset_leaves_traces :
    (∃ s s', run access rngTransport [writeU32 0x70 0x80] = some s ∧ s.device.activated = false ∧
      s.access (writeU32 0x70 0) = some s' ∧
      s'.read 0x70 [0, 0, 0, 0] = [0x80, 0, 0, 0] ∧
      rngTransport.read 0x70 [0, 0, 0, 0] = [0, 0, 0, 0]) ∧
    (∃ s s', run access rngTransport
        [writeU32 0x70 1, writeU32 0x70 3, writeU32 0x24 1, writeU32 0x20 1] = some s ∧
      s.device.activated = false ∧ s.access (writeU32 0x70 0) = some s' ∧
      s'.device.ackedFeatures = 0x100000000 ∧ rngTransport.device.ackedFeatures = 0) ∧
    ∃ s s', run access fsTransport [writeU32 0xac 2] = some s ∧ s.device.activated = false ∧
      s.access (writeU32 0x70 0) = some s' ∧
      s'.read 0xb0 [0, 0, 0, 0] = [0xff, 0xff, 0xff, 0xff] ∧
      fsTransport.read 0xb0 [0, 0, 0, 0] = [0, 0, 1, 0] :=
  ⟨⟨{ rngTransport with deviceStatus := 0x80 }, { rngTransport with deviceStatus := 0x80 },
      by decide, by decide, by decide, by decide, by decide⟩,
    ⟨{ rngTransport with
        deviceStatus := 3, ackedFeaturesSelect := 1,
        device := { rngTransport.device with ackedFeatures := 0x100000000 } },
      { rngTransport with device := { rngTransport.device with ackedFeatures := 0x100000000 } },
      by decide, by decide, by decide, by decide, by decide⟩,
    ⟨{ fsTransport with shmRegionSelect := 2 }, { fsTransport with shmRegionSelect := 2 },
      by decide, by decide, by decide, by decide, by decide⟩⟩

end MmioTransport

end Shelter.Virtio
