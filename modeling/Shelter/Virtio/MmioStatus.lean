import Shelter.Virtio.Mmio

/-!
# The device status

A driver takes the device through `ACKNOWLEDGE`, `DRIVER`, `FEATURES_OK` and `DRIVER_OK`, and may
set `FAILED` at any point. `set_device_status` checks which bits a write sets but stores the whole
value, so a write that sets the next bit can clear earlier ones (`status_drops_bit`).

`status_on_chain`: in a run in which no write that sets the next bit leaves out a bit already set,
the status stays on the chain of the initialisation, bits are cleared only by a completed reset,
and the device is activated only on the step that completes the chain.

`activated_config`: in such a run, from `DRIVER_OK` on and until a completed reset, the negotiated
features stay, and a queue changes only by writes to its own fields.
-/

open Bytes Run

namespace Shelter.Virtio

open DeviceStatus BitVec

namespace MmioTransport

def statusWrite : Access → Option U32
  | .write 0x70 data => if data.length = 4 then some (readLeU32 data) else none
  | _ => none

/-- The access is no status write that sets the next bit and leaves out one already set. -/
def KeepsBits (s : MmioTransport) (a : Access) : Prop :=
  match statusWrite a with
  | some v => Advances s.deviceStatus v → s.deviceStatus &&& ~~~v = 0
  | none => True

instance (s : MmioTransport) (a : Access) : Decidable (KeepsBits s a) := by
  unfold KeepsBits
  cases statusWrite a <;> infer_instance

def initChain : List U32 := [0, 1, 3, 11, 15]

/-- A step of the initialisation, possibly with `FAILED` added. -/
def OnChain (status : U32) : Prop := ∃ p ∈ initChain, status = p ∨ status = p ||| failed

instance (status : U32) : Decidable (OnChain status) :=
  decidable_of_iff (initChain.any (fun p => status == p || status == p ||| failed) = true)
    (by simp [OnChain])

/-- What an access may do to the status and to the activation of the device. -/
structure StatusStep (s : MmioTransport) (a : Access) (s' : MmioTransport) : Prop where
  onChain : OnChain s'.deviceStatus
  kept : s.deviceStatus &&& ~~~s'.deviceStatus = 0 ∨
    statusWrite a = some 0 ∧ s'.deviceStatus = init
  activate : s'.device.activations ≠ s.device.activations →
    s.deviceStatus = 11 ∧ s'.deviceStatus = 15

/-! ## One step -/

variable {w : ℕ} {status v : U32} {s s' : MmioTransport} {a : Access}

theorem eq_or_of_keeps {a v : BitVec w} (h : a &&& ~~~v = 0) : v = a ||| (~~~a &&& v) := by
  ext i hi
  have hb := congrArg (fun x : BitVec w => x[i]) h
  simp only [getElem_and, getElem_not] at hb
  cases ha : a[i] <;> cases hv : v[i] <;> simp_all

theorem Advances.value (h : Advances status v) (hk : status &&& ~~~v = 0) :
    (status = 0 ∧ v = 1) ∨ (status = 1 ∧ v = 3) ∨ (status = 3 ∧ v = 11) ∨
      (status = 11 ∧ v = 15) := by
  have hv := eq_or_of_keeps hk
  rcases advances_iff.mp h with ⟨hc, rfl⟩ | ⟨hc, rfl⟩ | ⟨hc, rfl⟩ | ⟨hc, rfl⟩
  · exact .inl ⟨rfl, by rw [hv, hc]; rfl⟩
  · exact .inr (.inl ⟨rfl, by rw [hv, hc]; rfl⟩)
  · exact .inr (.inr (.inl ⟨rfl, by rw [hv, hc]; rfl⟩))
  · exact .inr (.inr (.inr ⟨rfl, by rw [hv, hc]; rfl⟩))

theorem OnChain.or_failed (h : OnChain status) : OnChain (status ||| failed) := by
  obtain ⟨p, hp, hs | hs⟩ := h
  · exact ⟨p, hp, .inr (by rw [hs])⟩
  · exact ⟨p, hp, .inr (by rw [hs, BitVec.or_assoc, BitVec.or_self])⟩

theorem and_not_or_self (a b : BitVec w) : a &&& ~~~(a ||| b) = 0 := by
  ext i hi
  simp only [getElem_and, getElem_not, getElem_or]
  cases a[i] <;> simp

theorem statusWrite_write {data : List Byte} (h : data.length = 4) :
    statusWrite (.write 0x70 data) = some (readLeU32 data) := if_pos h

theorem statusStep_of_setDeviceStatus (hs : OnChain s.deviceStatus) (ha : statusWrite a = some v)
    (hk : KeepsBits s a) (h : s.setDeviceStatus v = some s') : StatusStep s a s' := by
  unfold KeepsBits at hk
  simp only [ha] at hk
  rw [setDeviceStatus_eq] at h
  split_ifs at h with hadv hact hf h0
  · -- the last step of the chain, on a device that is not activated
    obtain ⟨d, hd, rfl⟩ := Option.map_eq_some_iff.mp h
    have hv : v = 15 := by
      rcases hadv.value (hk hadv) with ⟨h1, _⟩ | ⟨h1, _⟩ | ⟨h1, _⟩ | ⟨_, hv⟩
      case inr.inr.inr => exact hv
      all_goals exact absurd (h1.symm.trans hact.1) (by decide)
    exact ⟨⟨15, by decide, .inl hv⟩, .inl (hk hadv), fun _ => ⟨hact.1, hv⟩⟩
  · cases h
    refine ⟨?_, .inl (hk hadv), fun hne => absurd rfl hne⟩
    rcases hadv.value (hk hadv) with ⟨_, hv⟩ | ⟨_, hv⟩ | ⟨_, hv⟩ | ⟨_, hv⟩
    · exact ⟨1, by decide, .inl hv⟩
    · exact ⟨3, by decide, .inl hv⟩
    · exact ⟨11, by decide, .inl hv⟩
    · exact ⟨15, by decide, .inl hv⟩
  · cases h
    exact ⟨hs.or_failed, .inl (and_not_or_self _ _), fun hne => absurd rfl hne⟩
  · cases h
    subst h0
    have hact : s.requestReset.device.activations ≠ s.device.activations →
        s.deviceStatus = 11 ∧ s.requestReset.deviceStatus = 15 :=
      fun hne => absurd s.requestReset_activations hne
    rcases s.requestReset_status with hr | hr | hr
    · exact ⟨⟨0, by decide, .inl hr⟩, .inr ⟨ha, hr⟩, hact⟩
    · exact ⟨hr ▸ hs, .inl (by rw [hr, BitVec.and_not_self]), hact⟩
    · exact ⟨hr ▸ hs.or_failed, .inl (by rw [hr]; exact and_not_or_self _ _), hact⟩
  · cases h
    exact ⟨hs, .inl (by rw [BitVec.and_not_self]), fun hne => absurd rfl hne⟩

theorem statusStep_of_access (hs : OnChain s.deviceStatus) (hk : KeepsBits s a)
    (h : s.access a = some s') : StatusStep s a s' := by
  have hsame : ∀ {t : MmioTransport}, t.deviceStatus = s.deviceStatus →
      t.device.activations = s.device.activations → StatusStep s a t := by
    intro t h1 h2
    exact ⟨h1 ▸ hs, .inl (by rw [h1, BitVec.and_not_self]), fun hne => absurd h2 hne⟩
  cases effect_of_access h with
  | quiet _ _ hd hst _ _ => exact hsame hst (by rw [hd])
  | ack | queue => exact hsame rfl rfl
  | status data _ hl hset =>
    exact statusStep_of_setDeviceStatus hs (statusWrite_write hl) hk hset

/-! ## Runs -/

section Runs

variable {kind : DeviceKind} {features : U64} {config : List Byte}
  {shm : Option VirtioShmRegion} {evts : List U32}

theorem onChain_of_run {es : List Access}
    (hk : Along access KeepsBits (fresh kind features config shm evts) es)
    (hr : run access (fresh kind features config shm evts) es = some s) : OnChain s.deviceStatus :=
  along_invariant (P := fun s => OnChain s.deviceStatus)
    (fun _ _ _ hs hk h => (statusStep_of_access hs hk h).onChain)
    ⟨0, by decide, .inl rfl⟩ hk hr

/-- **The status chain.** In every run in which no status write that sets the next bit leaves out
a bit already set, the status is always a step of the initialisation, possibly with `FAILED`
added; a bit is cleared only by a status write of 0 that completes the reset; and `activate` is
called only on the step from the first three bits to all four. -/
theorem status_on_chain {es : List Access} {a : Access} {s s' : MmioTransport}
    (hk : Along access KeepsBits (fresh kind features config shm evts) (es ++ [a]))
    (hr : run access (fresh kind features config shm evts) es = some s)
    (h : s.access a = some s') : OnChain s.deviceStatus ∧ StatusStep s a s' := by
  obtain ⟨hk₁, hk₂⟩ := along_append.mp hk
  have hs := onChain_of_run hk₁ hr
  exact ⟨hs, statusStep_of_access hs (hk₂ s hr).1 h⟩

end Runs

def writeU32 (offset : ℕ) (v : U32) : Access := .write offset (leBytes 4 v.toNat)

/-- An entropy device that offers `VERSION_1`. -/
def rngTransport : MmioTransport := fresh .rng 0x100000000 [] none [0]

/-- The statuses that a driver writes to initialise the device. -/
def initWrites : List Access := [writeU32 0x70 1, writeU32 0x70 3, writeU32 0x70 11]

/-- The state of the entropy device before `DRIVER_OK`. -/
def rngReady : MmioTransport := { rngTransport with deviceStatus := 11 }

/-- The driver that keeps all bits activates the device with its last write. -/
theorem status_on_chain_rng :
    OnChain rngReady.deviceStatus ∧
      ∃ s', rngReady.access (writeU32 0x70 15) = some s' ∧
        StatusStep rngReady (writeU32 0x70 15) s' ∧ s'.device.activations = 1 :=
  have h := status_on_chain (a := writeU32 0x70 15)
    (show Along access KeepsBits rngTransport (initWrites ++ [writeU32 0x70 15]) by decide)
    (show run access rngTransport initWrites = some rngReady by decide)
    (show rngReady.access (writeU32 0x70 15) = some { rngReady with
      deviceStatus := 15, device := { rngReady.device with activated := true, activations := 1 } }
      by decide)
  ⟨h.1, _, by decide, h.2, rfl⟩

/-- A driver that writes 1 and then 2 leaves the chain and clears `ACKNOWLEDGE` without a reset; one
that writes 4 after the first three bits activates the device with `DRIVER_OK` alone. -/
theorem status_drops_bit :
    (∃ s s', run access rngTransport [writeU32 0x70 1] = some s ∧
      s.access (writeU32 0x70 2) = some s' ∧ s.deviceStatus &&& acknowledge ≠ 0 ∧
      s'.deviceStatus &&& acknowledge = 0 ∧ s'.deviceStatus ≠ 0 ∧ ¬ OnChain s'.deviceStatus) ∧
    (∃ s s', run access rngTransport initWrites = some s ∧
      s.access (writeU32 0x70 4) = some s' ∧ s.device.activations = 0 ∧
      s'.device.activations = 1 ∧ s'.deviceStatus = 4 ∧ ¬ OnChain s'.deviceStatus) :=
  ⟨⟨{ rngTransport with deviceStatus := 1 }, { rngTransport with deviceStatus := 2 }, by decide,
      by decide, by decide, by decide, by decide, by decide⟩,
    ⟨rngReady, { rngReady with
      deviceStatus := 4, device := { rngReady.device with activated := true, activations := 1 } },
      by decide, by decide, by decide, by decide, by decide, by decide⟩⟩

/-! ## After `DRIVER_OK` -/

structure QueueConfig where
  size : U16
  ready : Bool
  descTable : U64
  availRing : U64
  usedRing : U64
  deriving DecidableEq, Repr

def queueConfig (q : Queue) : QueueConfig := ⟨q.size, q.ready, q.descTable, q.availRing, q.usedRing⟩

/-- The configuration of queue `i` as the transport holds it. -/
def configAt (s : MmioTransport) (i : ℕ) : Option QueueConfig :=
  s.device.queues[i]?.map queueConfig

def queueWrite : Access → Bool
  | .write offset data => data.length == 4 && (queueField offset).isSome
  | .read _ _ => false

/-- The access is a write to a field of queue `i`, made while such writes count. -/
def WritesQueue (i : ℕ) (s : MmioTransport) (a : Access) : Prop :=
  queueWrite a = true ∧ s.queueSelect.toNat = i ∧ s.checkDeviceStatus featuresOk failed = true
  deriving Decidable

/-- The access is a status write of 0 that resets the transport. -/
def CompletesReset (s : MmioTransport) (a : Access) : Prop :=
  statusWrite a = some 0 ∧ s.requestReset.deviceStatus = init
  deriving Decidable

theorem OnChain.driverOk (h : OnChain status) (hd : status &&& driverOk ≠ 0) :
    status = 15 ∨ status = 15 ||| failed := by
  obtain ⟨p, hp, hs⟩ := h
  have hp : p = 0 ∨ p = 1 ∨ p = 3 ∨ p = 11 ∨ p = 15 := by simpa [initChain] using hp
  rcases hp with rfl | rfl | rfl | rfl | rfl
  case inr.inr.inr.inr => exact hs
  all_goals rcases hs with rfl | rfl <;> exact absurd rfl hd

theorem requestReset_device (h : s.requestReset.deviceStatus ≠ init) :
    s.requestReset.device.ackedFeatures = s.device.ackedFeatures ∧
      s.requestReset.device.queues = s.device.queues := by
  rcases s.requestReset_cases with hr | hr <;> rw [hr] at h ⊢
  · exact absurd rfl h
  · exact ⟨s.resetBackend_device.1, s.resetBackend_device.2.1⟩

theorem activated_step (hs : s.deviceStatus = 15 ∨ s.deviceStatus = 15 ||| failed)
    (hn : ¬ CompletesReset s a) (h : s.access a = some s') :
    (s'.deviceStatus = 15 ∨ s'.deviceStatus = 15 ||| failed) ∧
      s'.device.ackedFeatures = s.device.ackedFeatures ∧
      ∀ i, ¬ WritesQueue i s a → s'.configAt i = s.configAt i := by
  cases effect_of_access h with
  | quiet _ _ hd hst _ _ =>
    exact ⟨hst ▸ hs, by rw [hd], fun i _ => by unfold configAt; rw [hd]⟩
  | ack data _ ho =>
    -- the gate of the feature register is closed
    unfold ackOpen checkDeviceStatus at ho
    rcases hs with hs | hs <;> rw [hs] at ho <;> exact absurd ho (by decide)
  | queue offset data f hl hf hg =>
    refine ⟨hs, rfl, fun i hw => ?_⟩
    have hne : s.queueSelect.toNat ≠ i := fun he =>
      hw ⟨by simp [queueWrite, hl, hf], he, hg⟩
    show (List.modify s.device.queues s.queueSelect.toNat (f (readLeU32 data)))[i]?.map _ = _
    rw [List.getElem?_modify_ne _ _ hne]
    rfl
  | status data _ hl hset =>
    have hadv : ¬ Advances s.deviceStatus (readLeU32 data) := by
      unfold Advances
      rcases hs with hs | hs <;> rw [hs] <;> simp [nextBit, init, acknowledge, driver, featuresOk,
        failed]
    have hfailed : s.deviceStatus ||| failed = 15 ||| failed := by
      rcases hs with hs | hs <;> rw [hs]
      rfl
    rw [setDeviceStatus_eq, if_neg hadv] at hset
    split_ifs at hset with hf h0
    · cases hset
      exact ⟨.inr hfailed, rfl, fun i _ => rfl⟩
    · cases hset
      have hne : s.requestReset.deviceStatus ≠ init :=
        fun he => hn ⟨by rw [statusWrite_write hl, h0], he⟩
      obtain ⟨hacked, hqueues⟩ := requestReset_device hne
      refine ⟨?_, hacked, fun i _ => by unfold configAt; rw [hqueues]⟩
      rcases s.requestReset_status with hr | hr | hr
      · exact absurd hr hne
      · rw [hr]; exact hs
      · exact .inr (hr.trans hfailed)
    · cases hset
      exact ⟨hs, rfl, fun i _ => rfl⟩

/-- What holds of a run from `s` that has not been reset: `DRIVER_OK` is set, and the features and
the queues in `I` are as they were in `s`. -/
structure ConfigKept (I : ℕ → Prop) (s t : MmioTransport) : Prop where
  status : t.deviceStatus = 15 ∨ t.deviceStatus = 15 ||| failed
  acked : t.device.ackedFeatures = s.device.ackedFeatures
  queues : ∀ i, I i → t.configAt i = s.configAt i

theorem configKept_of_run {I : ℕ → Prop} {es : List Access}
    (hs : s.deviceStatus = 15 ∨ s.deviceStatus = 15 ||| failed)
    (hc : Along access (fun t a => ¬ CompletesReset t a ∧ ∀ i, I i → ¬ WritesQueue i t a) s es)
    (hr : run access s es = some s') : ConfigKept I s s' := by
  refine along_invariant (P := ConfigKept I s) ?_ ⟨hs, rfl, fun _ _ => rfl⟩ hc hr
  intro t a t' ht hca h
  obtain ⟨h1, h2, h3⟩ := activated_step ht.status hca.1 h
  exact ⟨h1, h2.trans ht.acked, fun i hi => (h3 i (hca.2 i hi)).trans (ht.queues i hi)⟩

section Runs

variable {kind : DeviceKind} {features : U64} {config : List Byte}
  {shm : Option VirtioShmRegion} {evts : List U32}

/-- **The configuration after activation.** Take a run in which no status write that sets the next
bit leaves out one already set. From a state with `DRIVER_OK` on, and until a reset completes,
the negotiated features stay as they are whatever the guest writes, and so do size, ready flag and
addresses of every queue to whose fields the guest does not write while it is selected. -/
theorem activated_config {es es' : List Access} {s s' : MmioTransport}
    (hk : Along access KeepsBits (fresh kind features config shm evts) es)
    (hr : run access (fresh kind features config shm evts) es = some s)
    (hd : s.deviceStatus &&& driverOk ≠ 0)
    (hn : Along access (fun t a => ¬ CompletesReset t a) s es')
    (hr' : run access s es' = some s') :
    s'.device.ackedFeatures = s.device.ackedFeatures ∧
      ∀ i, Along access (fun t a => ¬ WritesQueue i t a) s es' →
        s'.configAt i = s.configAt i := by
  have hs := (onChain_of_run hk hr).driverOk hd
  constructor
  · exact (configKept_of_run (I := fun _ => False) hs (hn.mono fun _ _ h => ⟨h, by simp⟩) hr').acked
  · intro i hw
    have hc := (hn.and hw).mono fun t a h => (⟨h.1, fun j hj => hj ▸ h.2⟩ :
      ¬ CompletesReset t a ∧ ∀ j, i = j → ¬ WritesQueue j t a)
    exact (configKept_of_run hs hc hr').queues i rfl

end Runs

def rngActive : MmioTransport :=
  { rngReady with
    deviceStatus := 15, device := { rngReady.device with activated := true, activations := 1 } }

/-- Acknowledging features does nothing any more, nor does a write under another queue number. -/
theorem activated_config_rng :
    ∃ s', run access rngActive [writeU32 0x20 1, writeU32 0x30 1, writeU32 0x38 8] = some s' ∧
      s'.device.ackedFeatures = rngActive.device.ackedFeatures ∧
      s'.configAt 0 = rngActive.configAt 0 :=
  have h := activated_config
    (show Along access KeepsBits rngTransport (initWrites ++ [writeU32 0x70 15]) by decide)
    (show run access rngTransport (initWrites ++ [writeU32 0x70 15]) = some rngActive by decide)
    (by decide)
    (show Along access _ rngActive [writeU32 0x20 1, writeU32 0x30 1, writeU32 0x38 8] by decide)
    (show run access rngActive _ = some { rngActive with queueSelect := 1 } by decide)
  ⟨_, by decide, h.1, h.2 0 (by decide)⟩

/-- The size of a queue can be written after activation. -/
theorem activated_queue_changes :
    ∃ s s', run access rngTransport (initWrites ++ [writeU32 0x70 15]) = some s ∧
      s.device.activated = true ∧ s.access (writeU32 0x38 8) = some s' ∧
      s'.deviceStatus = 15 ∧ s.configAt 0 = some ⟨0, false, 0, 0, 0⟩ ∧
      s'.configAt 0 = some ⟨8, false, 0, 0, 0⟩ :=
  ⟨rngActive, rngActive.withQueueMut fun q => { q with size := 8 }, by decide, by decide, by decide,
    by decide, by decide, by decide⟩

end MmioTransport

end Shelter.Virtio
