import Mathlib.Data.List.Induction
import Shelter.Virtio.MmioStatus

/-!
# Feature negotiation

The driver selects a page of 32 features and acknowledges features by writing their bits. The
transport passes such a write on while `DRIVER` is set and neither `FEATURES_OK` nor `FAILED` is;
the device drops the features it has not offered and adds the others to those it has.

`acked_exact`: after any run, the acknowledged features are the offered ones that some such write
named, and only such writes change them.
-/

open Bytes Run

namespace Shelter.Virtio

open DeviceStatus

theorem Device.ackFeaturesByPage_acked (d : Device) (page value : U32) :
    (d.ackFeaturesByPage page value).ackedFeatures =
      d.ackedFeatures ||| (pageBits page value &&& d.availFeatures) := by
  unfold ackFeaturesByPage setAckedFeatures
  generalize pageBits page value = v
  show d.ackedFeatures ||| (if v &&& ~~~d.availFeatures ≠ 0 then _ else v) = _
  have hv : (if v &&& ~~~d.availFeatures ≠ 0 then v &&& ~~~(v &&& ~~~d.availFeatures) else v) =
      v &&& d.availFeatures := by
    split_ifs with h
    · ext i hi
      simp only [BitVec.getElem_and, BitVec.getElem_not]
      cases v[i] <;> cases d.availFeatures[i] <;> rfl
    · -- nothing was named that is not offered
      rw [ne_eq, not_not] at h
      ext i hi
      have hb := congrArg (fun x : U64 => x[i]) h
      simp only [BitVec.getElem_and, BitVec.getElem_not] at hb
      cases hvi : v[i] <;> cases hai : d.availFeatures[i] <;> simp_all
  rw [hv]

theorem Device.activate_acked {d d' : Device} (h : d.activate = some d') :
    d'.ackedFeatures = d.ackedFeatures := by
  unfold activate at h
  split_ifs at h
  cases h
  rfl

namespace MmioTransport

theorem ackOpen_iff (s : MmioTransport) :
    s.ackOpen = true ↔
      s.deviceStatus &&& driver ≠ 0 ∧ s.deviceStatus &&& (featuresOk ||| failed) = 0 := by
  unfold ackOpen checkDeviceStatus
  rw [beq_iff_eq]
  generalize s.deviceStatus = st
  unfold driver featuresOk failed
  constructor
  · intro h
    have h1 : st &&& 2 = st &&& (2 ||| (8 ||| 128)) &&& 2 := by
      rw [BitVec.and_assoc]; rfl
    have h2 : st &&& (8 ||| 128) = st &&& (2 ||| (8 ||| 128)) &&& (8 ||| 128) := by
      rw [BitVec.and_assoc]; rfl
    rw [h1, h2, h]
    decide
  · rintro ⟨h1, h2⟩
    have h2' : st &&& (2 ||| (8 ||| 128)) = st &&& 2 ||| st &&& (8 ||| 128) := by
      ext i hi
      simp only [BitVec.getElem_and, BitVec.getElem_or]
      cases st[i] <;> simp
    have h1' : st &&& 2 = 2 := by
      have hbit : st &&& 2 = if st.getLsbD 1 then 2 else 0 := BitVec.and_twoPow st 1
      split_ifs at hbit
      · exact hbit
      · exact absurd hbit h1
    rw [h2', h1', h2]
    rfl

/-- The access is a write to the feature register made while `DRIVER` is set and neither
`FEATURES_OK` nor `FAILED` is, and it names `bits` under the page selected at that moment. -/
def AckWrite (s : MmioTransport) (a : Access) (bits : U64) : Prop :=
  ∃ data, a = .write 0x20 data ∧ data.length = 4 ∧ s.deviceStatus &&& driver ≠ 0 ∧
    s.deviceStatus &&& (featuresOk ||| failed) = 0 ∧
    bits = Device.pageBits s.ackedFeaturesSelect (readLeU32 data)

variable {s s' : MmioTransport} {a : Access}

theorem acked_of_ackWrite {bits : U64} (hw : AckWrite s a bits) (h : s.access a = some s') :
    s'.device.ackedFeatures = s.device.ackedFeatures ||| (bits &&& s.device.availFeatures) := by
  obtain ⟨data, rfl, hl, hd, hf, rfl⟩ := hw
  have ho : s.ackOpen = true := s.ackOpen_iff.mpr ⟨hd, hf⟩
  have hs : s.access (.write 0x20 data) = some { s with
      device := s.device.ackFeaturesByPage s.ackedFeaturesSelect (readLeU32 data) } := by
    show s.write 0x20 data = _
    unfold write
    rw [if_pos ⟨by decide, hl⟩]
    exact if_pos ho
  cases hs.symm.trans h
  exact Device.ackFeaturesByPage_acked _ _ _

theorem requestReset_acked (s : MmioTransport) :
    s.requestReset.device.ackedFeatures = s.device.ackedFeatures := by
  rcases s.requestReset_cases with h | h <;> rw [h] <;> exact s.resetBackend_device.1

theorem acked_of_not_ackWrite (hw : ∀ bits, ¬ AckWrite s a bits) (h : s.access a = some s') :
    s'.device.ackedFeatures = s.device.ackedFeatures := by
  cases effect_of_access h with
  | quiet _ _ hd _ _ _ => rw [hd]
  | ack data hl ho =>
    obtain ⟨hd, hf⟩ := s.ackOpen_iff.mp ho
    exact absurd ⟨data, rfl, hl, hd, hf, rfl⟩ (hw _)
  | queue offset data f _ _ _ => rfl
  | status data _ _ hset =>
    rw [setDeviceStatus_eq] at hset
    split_ifs at hset
    · obtain ⟨d, hd, rfl⟩ := Option.map_eq_some_iff.mp hset
      exact Device.activate_acked hd
    all_goals cases hset
    · rfl
    · rfl
    · exact s.requestReset_acked
    · rfl

theorem acked_bit_of_access (h : s.access a = some s') (i : ℕ) :
    s'.device.ackedFeatures.getLsbD i = true ↔
      s.device.ackedFeatures.getLsbD i = true ∨
        s.device.availFeatures.getLsbD i = true ∧
          ∃ bits, AckWrite s a bits ∧ bits.getLsbD i = true := by
  by_cases hw : ∃ bits, AckWrite s a bits
  · obtain ⟨bits, hw⟩ := hw
    have huniq : ∀ bits', AckWrite s a bits' → bits' = bits := by
      obtain ⟨data, rfl, _, _, _, rfl⟩ := hw
      rintro bits' ⟨data', hd, _, _, _, rfl⟩
      cases hd
      rfl
    rw [acked_of_ackWrite hw h, BitVec.getLsbD_or, BitVec.getLsbD_and, Bool.or_eq_true,
      Bool.and_eq_true]
    refine or_congr_right ⟨fun ⟨hb, ho⟩ => ⟨ho, bits, hw, hb⟩, ?_⟩
    rintro ⟨ho, bits', hw', hb⟩
    exact ⟨huniq bits' hw' ▸ hb, ho⟩
  · have hw := not_exists.mp hw
    rw [acked_of_not_ackWrite hw h]
    refine (or_iff_left ?_).symm
    rintro ⟨_, bits, hw', _⟩
    exact hw bits hw'

section Runs

variable {kind : DeviceKind} {features : U64} {config : List Byte}
  {shm : Option VirtioShmRegion} {evts : List U32}

theorem acked_bit_of_run {es : List Access}
    (hr : run access (fresh kind features config shm evts) es = some s) (i : ℕ) :
    s.device.ackedFeatures.getLsbD i = true ↔
      features.getLsbD i = true ∧
        Occurs access (fun t a => ∃ bits, AckWrite t a bits ∧ bits.getLsbD i = true)
          (fresh kind features config shm evts) es := by
  induction es using List.reverseRecOn generalizing s with
  | nil =>
    cases hr
    simp [fresh, new, Device.new, not_occurs_nil]
  | append_singleton es a ih =>
    rw [run_snoc, Option.bind_eq_some_iff] at hr
    obtain ⟨t, ht, hs⟩ := hr
    have hoff : t.device.availFeatures = features := (sameStatic_of_run ht).availFeatures
    rw [acked_bit_of_access hs, ih ht, hoff, occurs_snoc, ← and_or_left]
    refine and_congr_right fun _ => or_congr_right ⟨fun h => ⟨t, ht, h⟩, ?_⟩
    rintro ⟨u, hu, h⟩
    cases ht.symm.trans hu
    exact h

/-- **Negotiated features.** After every run of accesses, the acknowledged features are among the
offered ones, and a feature is acknowledged exactly if it was offered and some write to the feature
register named it, under the page selected at that moment, while `DRIVER` was set and neither
`FEATURES_OK` nor `FAILED` was. An access that changes the acknowledged features is such a
write. -/
theorem acked_exact {es : List Access} {s : MmioTransport}
    (hr : run access (fresh kind features config shm evts) es = some s) :
    s.device.availFeatures = features ∧ s.device.ackedFeatures &&& ~~~features = 0 ∧
      (∀ i, s.device.ackedFeatures.getLsbD i = true ↔
        features.getLsbD i = true ∧
          Occurs access (fun t a => ∃ bits, AckWrite t a bits ∧ bits.getLsbD i = true)
            (fresh kind features config shm evts) es) ∧
      (∀ a s', s.access a = some s' → s'.device.ackedFeatures ≠ s.device.ackedFeatures →
        ∃ bits, AckWrite s a bits) := by
  refine ⟨(sameStatic_of_run hr).availFeatures, ?_, acked_bit_of_run hr, ?_⟩
  · ext i hi
    have hb := acked_bit_of_run hr i
    simp only [BitVec.getElem_and, BitVec.getElem_not]
    cases ha : s.device.ackedFeatures[i] with
    | false => simp
    | true => simp [(hb.mp ha).1]
  · intro a s' hs hne
    by_contra hw
    exact hne (acked_of_not_ackWrite (not_exists.mp hw) hs)

end Runs

/-- The state of the entropy device after its feature was acknowledged. -/
def rngAcked : MmioTransport :=
  { rngTransport with
    deviceStatus := 3, ackedFeaturesSelect := 1
    device := { rngTransport.device with ackedFeatures := 0x100000000 } }

/-- The driver names bits 32 and 33; the device has only offered bit 32. -/
theorem acked_exact_rng :
    run access rngTransport
        [writeU32 0x70 1, writeU32 0x70 3, writeU32 0x24 1, writeU32 0x20 3] = some rngAcked ∧
      rngAcked.device.ackedFeatures &&& ~~~rngTransport.device.availFeatures = 0 ∧
      Occurs access (fun t a => ∃ bits, AckWrite t a bits ∧ bits.getLsbD 32 = true) rngTransport
        [writeU32 0x70 1, writeU32 0x70 3, writeU32 0x24 1, writeU32 0x20 3] :=
  have hr : run access rngTransport
      [writeU32 0x70 1, writeU32 0x70 3, writeU32 0x24 1, writeU32 0x20 3] = some rngAcked := by
    decide
  have h := acked_exact hr
  ⟨hr, h.2.1, ((h.2.2.1 32).mp (by decide)).2⟩

end MmioTransport

end Shelter.Virtio
