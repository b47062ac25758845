import Shelter.Virtio.Descriptor

/-!
# The split virtqueue

`Queue` is the device's side of a virtqueue: the ring addresses the driver configured and the
free-running 16-bit counters of the device. The functions follow `queue.rs` one by one. An
`Except` result is the code's `Result`; where the code unwraps one, the model returns an
`Option` whose `none` is the panic.

The rings are guest memory. `RingsMapped` says that they lie in mapped memory at even addresses;
under it every ring access succeeds, and the `_spec` lemmas of the second half say what each
function then reads and writes.
-/

open Bytes

namespace Shelter.Virtio

open DescriptorChain Option

variable {M : Type} [GuestMemory M]

/-- The errors of `queue.rs` that the modelled functions return. -/
inductive QueueError
  | addressOverflow
  | guestMemory
  | invalidDescriptorIndex
  deriving DecidableEq, Repr

def virtqUsedRingHeaderSize : ℕ := 4
/-- Size of one element in the used ring, id (le32) + len (le32). -/
def virtqUsedElementSize : ℕ := 8
def virtqAvailRingHeaderSize : ℕ := 4
def virtqAvailElementSize : ℕ := 2

def vringUsedFNoNotify : U16 := 1

structure VirtqUsedElem where
  id : U32
  len : U32
  deriving DecidableEq, Repr

variable (e : VirtqUsedElem)

def VirtqUsedElem.toBytes : List Byte :=
  leBytes 4 e.id.toNat ++ leBytes 4 e.len.toNat

def VirtqUsedElem.ofBytes (bs : List Byte) : VirtqUsedElem where
  id := BitVec.ofNat 32 (leNat (bs.take 4))
  len := BitVec.ofNat 32 (leNat ((bs.drop 4).take 4))

theorem VirtqUsedElem.ofBytes_toBytes : ofBytes e.toBytes = e := by
  obtain ⟨id, len⟩ := e
  have h4 : (leBytes 4 id.toNat ++ leBytes 4 len.toNat).take 4 = leBytes 4 id.toNat := by
    rw [List.take_append_of_le_length (by simp), List.take_of_length_le (by simp)]
  have h8 : ((leBytes 4 id.toNat ++ leBytes 4 len.toNat).drop 4).take 4 = leBytes 4 len.toNat := by
    rw [List.drop_left' (by simp), List.take_of_length_le (by simp)]
  unfold ofBytes toBytes
  simp only [h4, h8]
  rw [ofNat_leNat_leBytes 4 id (by norm_num), ofNat_leNat_leBytes 4 len (by norm_num)]

structure Queue where
  maxSize : U16
  size : U16
  ready : Bool
  descTable : U64
  availRing : U64
  usedRing : U64
  nextAvail : U16
  nextUsed : U16
  eventIdxEnabled : Bool
  numAdded : U16
  deriving DecidableEq, Repr

namespace Queue

def new (maxSize : U16) : Queue where
  maxSize := maxSize
  size := 0
  ready := false
  descTable := 0
  availRing := 0
  usedRing := 0
  nextAvail := 0
  nextUsed := 0
  eventIdxEnabled := false
  numAdded := 0

variable (q : Queue)

def getMaxSize : U16 := q.maxSize

def actualSize : U16 := if q.size ≤ q.maxSize then q.size else q.maxSize

def sizeValid : Bool :=
  !(decide (q.maxSize < q.size) || q.size == 0 || q.size &&& (q.size - 1) != 0)

/-- One of the three bound checks of `is_valid`: the end of the range is a mapped address. -/
def endInRange (m : M) (base : U64) (size : ℕ) : Bool :=
  match checkedAdd base.toNat size with
  | some v => addressInRange m v
  | none => false

variable (m : M)

def isValid : Bool :=
  let queueSize := q.actualSize.toNat
  let descTableSize := 16 * queueSize
  let availRingSize := 6 + 2 * queueSize
  let usedRingSize := 6 + 8 * queueSize
  q.ready && q.sizeValid && endInRange m q.descTable descTableSize &&
    endInRange m q.availRing availRingSize && endInRange m q.usedRing usedRingSize &&
    q.descTable &&& 0xf == 0 && q.availRing &&& 0x1 == 0 && q.usedRing &&& 0x3 == 0

/-! ## The available ring -/

def availIdx : Except QueueError U16 :=
  match checkedAdd q.availRing.toNat 2 with
  | none => .error .addressOverflow
  | some addr =>
    match load m addr with
    | none => .error .guestMemory
    | some idx => .ok idx

def len : Option U16 := (q.availIdx m).toOption.map (· - q.nextAvail)

/-- The offset of the next ring entry, in the `u16` arithmetic of the source. -/
def indexOffset : U16 := 4 + 2 * (q.nextAvail % q.actualSize)

/-- The end of `pop`, at the ring entry `h`: the counter moves only if `checkedNew` accepts the
head. -/
def popAt (h : U16) : Option DescriptorChain × Queue :=
  match checkedNew m q.descTable q.actualSize h with
  | some c => (some c, { q with nextAvail := q.nextAvail + 1 })
  | none => (none, q)

/-- `pop` once there is something to pop: read the ring entry, then the head descriptor. -/
def popEntry : Option (Option DescriptorChain × Queue) := do
  let bs ← readSlice m ((q.availRing.toNat + q.indexOffset.toNat) % 2 ^ 64) 2
  let descIndex : U16 := BitVec.ofNat 16 (leNat bs)
  some (q.popAt m descIndex)

def pop : Option (Option DescriptorChain × Queue) := do
  let n ← q.len m
  if n = 0 ∨ q.actualSize = 0 then some (none, q) else q.popEntry m

def undoPop : Queue := { q with nextAvail := q.nextAvail - 1 }

def goToPreviousPosition : Queue := { q with nextAvail := q.nextAvail - 1 }

/-- The value of the `used_event` field of the available ring. -/
def usedEvent : Except QueueError U16 :=
  let usedEventOffset := virtqAvailRingHeaderSize + q.size.toNat * virtqAvailElementSize
  match checkedAdd q.availRing.toNat usedEventOffset with
  | none => .error .addressOverflow
  | some addr =>
    match load m addr with
    | none => .error .guestMemory
    | some v => .ok v

/-! ## The used ring -/

/-- A `u16` store at an offset from a ring's address. -/
def storeAt (m : M) (base : U64) (off : ℕ) (v : U16) : Except QueueError M :=
  match checkedAdd base.toNat off with
  | none => .error .addressOverflow
  | some addr =>
    match store m addr v with
    | none => .error .guestMemory
    | some m' => .ok m'

/-- Put a chain in the used ring. A failed store of the index leaves the counters advanced. -/
def addUsed (headIndex : U16) (len : U32) : Except QueueError Unit × Queue × M :=
  if q.size ≤ headIndex then (.error .invalidDescriptorIndex, q, m)
  else
    let nextUsedIndex := (q.nextUsed % q.size).toNat
    let offset := virtqUsedRingHeaderSize + nextUsedIndex * virtqUsedElementSize
    match checkedAdd q.usedRing.toNat offset with
    | none => (.error .addressOverflow, q, m)
    | some addr =>
      match writeSlice m addr (VirtqUsedElem.toBytes ⟨headIndex.setWidth 32, len⟩) with
      | (m₁, false) => (.error .guestMemory, q, m₁)
      | (m₁, true) =>
        let q₁ := { q with nextUsed := q.nextUsed + 1, numAdded := q.numAdded + 1 }
        match storeAt m₁ q₁.usedRing 2 q₁.nextUsed with
        | .error e => (.error e, q₁, m₁)
        | .ok m₂ => (.ok (), q₁, m₂)

def setAvailEvent (val : U16) : Except QueueError M :=
  storeAt m q.usedRing (virtqUsedRingHeaderSize + virtqUsedElementSize * q.size.toNat) val

def setEventIdx (enabled : Bool) : Queue := { q with eventIdxEnabled := enabled }

def setUsedFlags (val : U16) : Except QueueError M :=
  match store m q.usedRing.toNat val with
  | none => .error .guestMemory
  | some m' => .ok m'

/-! ## Notifications -/

/-- Write the appropriate values to enable or disable notifications from the driver. -/
def setNotification (enable : Bool) : Except QueueError M :=
  if enable then
    if q.eventIdxEnabled then q.setAvailEvent m q.nextAvail else q.setUsedFlags m 0
  else if !q.eventIdxEnabled then q.setUsedFlags m vringUsedFNoNotify
  else .ok m

/-- The check after the store of `enable_notification`. -/
def moreAvailable : Except QueueError Bool :=
  match q.availIdx m with
  | .error e => .error e
  | .ok idx => .ok (idx != q.nextAvail)

/-- Enable notifications, then look whether the driver has added more entries. If that fails the
notifications are enabled all the same. -/
def enableNotification : Except QueueError Bool × M :=
  match q.setNotification m true with
  | .error e => (.error e, m)
  | .ok m' => (q.moreAvailable m', m')

def disableNotification : Except QueueError M := q.setNotification m false

/-- Whether the driver is to be interrupted for the chains added since the last call. -/
def needsNotification : Except QueueError (Bool × Queue) :=
  let usedIdx := q.nextUsed
  if q.eventIdxEnabled then
    match q.usedEvent m with
    | .error e => .error e
    | .ok usedEvent =>
      let old := usedIdx - q.numAdded
      .ok (decide (usedIdx - usedEvent - 1 < usedIdx - old), { q with numAdded := 0 })
  else .ok (true, q)

/-! ## Where the rings lie -/

/-- Both rings lie in mapped memory, at addresses that suit the atomic accesses. -/
@[mk_iff] structure RingsMapped (q : Queue) (m : M) : Prop where
  avail : Mapped m q.availRing.toNat (6 + 2 * q.size.toNat)
  used : Mapped m q.usedRing.toNat (6 + 8 * q.size.toNat)
  availEven : q.availRing.toNat % 2 = 0
  usedEven : q.usedRing.toNat % 2 = 0

instance : Decidable (q.RingsMapped m) :=
  decidable_of_iff' _ (ringsMapped_iff ..)

def bumpUsed : Queue :=
  { q with nextUsed := q.nextUsed + 1, numAdded := q.numAdded + 1 }

/-- The configuration of a queue, as opposed to the counters of the device. -/
structure SameConfig (q q' : Queue) : Prop where
  maxSize : q'.maxSize = q.maxSize
  size : q'.size = q.size
  descTable : q'.descTable = q.descTable
  availRing : q'.availRing = q.availRing
  usedRing : q'.usedRing = q.usedRing
  eventIdx : q'.eventIdxEnabled = q.eventIdxEnabled

theorem SameConfig.refl : SameConfig q q := ⟨rfl, rfl, rfl, rfl, rfl, rfl⟩

theorem SameConfig.withNextAvail (n : U16) : SameConfig q { q with nextAvail := n } :=
  ⟨rfl, rfl, rfl, rfl, rfl, rfl⟩

theorem SameConfig.bumpUsed : SameConfig q q.bumpUsed :=
  ⟨rfl, rfl, rfl, rfl, rfl, rfl⟩

theorem SameConfig.trans {q₁ q₂ q₃ : Queue} (h : SameConfig q₁ q₂) (h' : SameConfig q₂ q₃) :
    SameConfig q₁ q₃ :=
  ⟨h'.maxSize.trans h.maxSize, h'.size.trans h.size, h'.descTable.trans h.descTable,
    h'.availRing.trans h.availRing, h'.usedRing.trans h.usedRing, h'.eventIdx.trans h.eventIdx⟩

variable {q q' : Queue}

theorem SameConfig.actualSize (h : SameConfig q q') : q'.actualSize = q.actualSize := by
  unfold Queue.actualSize; rw [h.size, h.maxSize]

theorem RingsMapped.congr {m m' : M} (h : RingsMapped q m) (hq : SameConfig q q')
    (hm : SameLayout m m') : RingsMapped q' m' := by
  obtain ⟨h1, h2, h3, h4⟩ := h
  refine ⟨?_, ?_, ?_, ?_⟩
  · rw [hq.availRing, hq.size]; exact hm.mapped_iff.mpr h1
  · rw [hq.usedRing, hq.size]; exact hm.mapped_iff.mpr h2
  · rw [hq.availRing]; exact h3
  · rw [hq.usedRing]; exact h4

theorem actualSize_le (q : Queue) : q.actualSize.toNat ≤ q.size.toNat := by
  unfold actualSize
  split_ifs with h
  · exact le_refl _
  · bv_omega

theorem sizeValid_iff (q : Queue) :
    q.sizeValid = true ↔ q.size ≤ q.maxSize ∧ q.size ≠ 0 ∧ q.size &&& (q.size - 1) = 0 := by
  unfold sizeValid
  simp [and_assoc]

theorem sizeValid_actualSize (h : q.sizeValid = true) : q.actualSize = q.size :=
  if_pos ((sizeValid_iff q).mp h).1

/-- The wrapped offset never exceeds the true one, so it stays inside the ring. -/
theorem indexOffset_lt (q : Queue) (h : q.actualSize ≠ 0) :
    q.indexOffset.toNat + 2 ≤ 6 + 2 * q.size.toNat := by
  have h1 := q.nextAvail.umod_lt (show 0 < q.actualSize by bv_omega)
  have h2 := actualSize_le q
  unfold indexOffset
  generalize q.nextAvail % q.actualSize = x at *
  bv_omega

/-! ## What the functions do with mapped rings -/

/-- The entry in cell `i` of the available ring. -/
def availCell (q : Queue) (m : M) (i : ℕ) : U16 := field16 m (q.availRing.toNat + (4 + 2 * i))

/-- The element in cell `i` of the used ring. -/
def usedCell (q : Queue) (m : M) (i : ℕ) : VirtqUsedElem :=
  VirtqUsedElem.ofBytes (bytesAt m (q.usedRing.toNat + (4 + i * 8)) 8)

def availIdxField (q : Queue) (m : M) : U16 := field16 m (q.availRing.toNat + 2)

def usedIdxField (q : Queue) (m : M) : U16 := field16 m (q.usedRing.toNat + 2)

section Specs

variable {q : Queue} {m : M} {off : ℕ} {base : U64}
  {r : Option DescriptorChain × Queue} {head : U16}

theorem toNat_mod_of_and {a : U64} {k : ℕ} (hk : 2 ^ k - 1 < 2 ^ 64)
    (h : a &&& BitVec.ofNat 64 (2 ^ k - 1) = 0) : a.toNat % 2 ^ k = 0 := by
  have hn := congrArg BitVec.toNat h
  rw [BitVec.toNat_and, BitVec.toNat_ofNat, Nat.mod_eq_of_lt hk,
    Nat.and_two_pow_sub_one_eq_mod] at hn
  exact hn

theorem popEntry_some (h : q.popEntry m = some r) : ∃ hd, r = q.popAt m hd := by
  unfold popEntry at h
  simp only [bind_eq_bind, bind_eq_some_iff, Option.some.injEq] at h
  obtain ⟨bs, _, he⟩ := h
  exact ⟨_, he.symm⟩

theorem popAt_cases (q : Queue) (m : M) (h : U16) :
    (∃ c, checkedNew m q.descTable q.actualSize h = some c ∧ c.index = h ∧
        q.popAt m h = (some c, { q with nextAvail := q.nextAvail + 1 })) ∨
      (checkedNew m q.descTable q.actualSize h = none ∧
        q.popAt m h = (none, q)) := by
  unfold popAt
  cases hc : checkedNew m q.descTable q.actualSize h with
  | some c => exact .inl ⟨c, rfl, (checkedNew_some hc).2.2.2.2.1, rfl⟩
  | none => exact .inr ⟨rfl, rfl⟩

/-- `pop` returns nothing and leaves the queue alone, or it returns a chain of the table and moves
on. -/
theorem pop_cases (h : q.pop m = some r) :
    r = (none, q) ∨
      ∃ c, r = (some c, { q with nextAvail := q.nextAvail + 1 }) ∧ c.index < q.size := by
  unfold pop at h
  simp only [bind_eq_bind, bind_eq_some_iff] at h
  obtain ⟨n, _, h⟩ := h
  split_ifs at h
  · exact .inl (Option.some.inj h).symm
  · obtain ⟨hd, rfl⟩ := popEntry_some h
    rcases popAt_cases q m hd with ⟨c, hc, hidx, he⟩ | ⟨_, he⟩
    · have hlt := (checkedNew_some hc).1
      have hle := actualSize_le q
      exact .inr ⟨c, he, by rw [hidx]; bv_omega⟩
    · exact .inl he

theorem pop_config (h : q.pop m = some r) : SameConfig q r.2 := by
  obtain rfl | ⟨c, rfl, _⟩ := pop_cases h
  · exact .refl q
  · exact .withNextAvail q _

theorem needsNotification_config {b : Bool} (h : q.needsNotification m = .ok (b, q')) :
    SameConfig q q' ∧ q'.nextAvail = q.nextAvail := by
  unfold needsNotification at h
  split_ifs at h
  · split at h
    · cases h
    · cases h
      exact ⟨⟨rfl, rfl, rfl, rfl, rfl, rfl⟩, rfl⟩
  · cases h
    exact ⟨SameConfig.refl _, rfl⟩

theorem nextUsed_slot_lt (hh : head < q.size) : (q.nextUsed % q.size).toNat < q.size.toNat :=
  BitVec.lt_def.mp (q.nextUsed.umod_lt (by bv_omega))

theorem addUsed_rejected (hh : ¬ head < q.size) (len : U32) :
    q.addUsed m head len = (.error .invalidDescriptorIndex, q, m) := by
  unfold addUsed
  rw [if_pos (by bv_omega)]

variable [LawfulGuestMemory M]

theorem checkedAdd_of_lt {a : ℕ} (h : a + off < 2 ^ 64) : checkedAdd a off = some (a + off) :=
  if_pos h

theorem mapped_atomic {a n : ℕ} (h : Mapped m a n) (ha : a % 2 = 0) (he : off % 2 = 0)
    (hle : off + 2 ≤ n) : AtomicAt m (a + off) ∧ a + off < 2 ^ 64 := by
  have hm : Mapped m (a + off) 2 := h.mono (by omega) (by omega)
  have hlt := hm.lt (by omega)
  exact ⟨hm.atomicAt (by omega), by omega⟩

theorem RingsMapped.avail_atomic (h : RingsMapped q m) (off : ℕ) (he : off % 2 = 0)
    (hle : off + 2 ≤ 6 + 2 * q.size.toNat) :
    AtomicAt m (q.availRing.toNat + off) ∧ q.availRing.toNat + off < 2 ^ 64 := by
  exact mapped_atomic h.avail h.availEven he hle

theorem RingsMapped.used_atomic (h : RingsMapped q m) (off : ℕ) (he : off % 2 = 0)
    (hle : off + 2 ≤ 6 + 8 * q.size.toNat) :
    AtomicAt m (q.usedRing.toNat + off) ∧ q.usedRing.toNat + off < 2 ^ 64 := by
  exact mapped_atomic h.used h.usedEven he hle

theorem mapped_of_endInRange {size : ℕ} (h : endInRange m base size = true)
    (hstart : ∀ r ∈ findRegion m (base.toNat + size), r.start ≤ base.toNat) :
    Mapped m base.toNat size := by
  have hend : addressInRange m (base.toNat + size) = true := by
    unfold endInRange checkedAdd at h
    split_ifs at h
    exact h
  obtain ⟨r, hr⟩ := addressInRange_iff.mp hend
  have hlt := (LawfulGuestMemory.find_contains hr).2
  have hle := hstart r hr
  intro i hi
  exact addressInRange_iff.mpr ⟨r, LawfulGuestMemory.find_of_contains hr ⟨by omega, by omega⟩⟩

/-- `is_valid` looks at the ends of the rings only. A queue that it accepts has its rings in mapped
memory if each ring starts in the region in which it ends. -/
theorem ringsMapped_of_isValid (h : q.isValid m = true)
    (ha : ∀ r ∈ findRegion m (q.availRing.toNat + (6 + 2 * q.size.toNat)),
      r.start ≤ q.availRing.toNat)
    (hu : ∀ r ∈ findRegion m (q.usedRing.toNat + (6 + 8 * q.size.toNat)),
      r.start ≤ q.usedRing.toNat) : q.RingsMapped m := by
  unfold isValid at h
  simp only [Bool.and_eq_true, beq_iff_eq] at h
  obtain ⟨⟨⟨⟨⟨⟨⟨_, hsize⟩, _⟩, havail⟩, hused⟩, _⟩, haeven⟩, hueven⟩ := h
  rw [sizeValid_actualSize hsize] at havail hused
  refine ⟨mapped_of_endInRange havail ha, mapped_of_endInRange hused hu, ?_, ?_⟩
  · exact toNat_mod_of_and (k := 1) (by decide) haeven
  · have := toNat_mod_of_and (k := 2) (by decide) hueven
    omega

-- A ring that starts in a gap of the memory passes the check.
example : ∃ (q : Queue) (m : FlatMemory), q.isValid m = true ∧ ¬ q.RingsMapped m :=
  ⟨{ Queue.new 16 with size := 4, ready := true, availRing := 0xf8, usedRing := 0x140 },
    FlatMemory.zeroed [⟨0, 0xf8⟩, ⟨0x100, 0x100⟩] (by decide), by decide, by decide⟩

theorem availIdx_eq (h : RingsMapped q m) : q.availIdx m = .ok (q.availIdxField m) := by
  obtain ⟨ha, hlt⟩ := h.avail_atomic 2 (by omega) (by omega)
  unfold availIdx
  rw [checkedAdd_of_lt hlt]
  simp only [load_eq_some ha, availIdxField]

theorem len_eq (h : RingsMapped q m) : q.len m = some (q.availIdxField m - q.nextAvail) := by
  unfold len
  rw [availIdx_eq h]
  rfl

/-- The ring entry that `pop` reads. -/
def headAt (q : Queue) (m : M) : U16 := field16 m (q.availRing.toNat + q.indexOffset.toNat)

theorem popEntry_eq (h : RingsMapped q m) (h0 : q.actualSize ≠ 0) :
    q.popEntry m = some (q.popAt m (q.headAt m)) := by
  have hle := indexOffset_lt q h0
  have hm : Mapped m (q.availRing.toNat + q.indexOffset.toNat) 2 :=
    h.avail.mono (by omega) (by omega)
  have hlt := hm.lt (by omega)
  unfold popEntry
  rw [Nat.mod_eq_of_lt (by omega), readSlice_eq_some (by omega) hm]
  rfl

theorem pop_eq (h : RingsMapped q m) :
    q.pop m =
      if q.availIdxField m = q.nextAvail ∨ q.actualSize = 0 then some (none, q)
      else some (q.popAt m (q.headAt m)) := by
  unfold pop
  rw [len_eq h]
  simp only [bind_eq_bind, bind_some]
  have hz : q.availIdxField m - q.nextAvail = 0 ↔ q.availIdxField m = q.nextAvail := by bv_omega
  simp only [hz]
  split_ifs with hc
  · rfl
  · rw [popEntry_eq h (fun h0 => hc (.inr h0))]

theorem pop_isSome (h : RingsMapped q m) : ∃ r, q.pop m = some r := by
  rw [pop_eq h]
  split_ifs <;> exact ⟨_, rfl⟩

theorem storeAt_ok (h : AtomicAt m (base.toNat + off)) (hlt : base.toNat + off < 2 ^ 64) (v : U16) :
    ∃ m', storeAt m base off v = .ok m' ∧ Wrote (base.toNat + off) (leBytes 2 v.toNat) m m' := by
  obtain ⟨m', hs, hw⟩ := store_of_atomicAt h v
  refine ⟨m', ?_, hw⟩
  unfold storeAt
  rw [checkedAdd_of_lt hlt]
  simp only [hs]

theorem usedEvent_eq (h : RingsMapped q m) :
    q.usedEvent m = .ok (field16 m (q.availRing.toNat + (4 + q.size.toNat * 2))) := by
  obtain ⟨ha, hlt⟩ := h.avail_atomic (4 + q.size.toNat * 2) (by omega) (by omega)
  unfold usedEvent virtqAvailRingHeaderSize virtqAvailElementSize
  simp only [checkedAdd_of_lt hlt, load_eq_some ha]

theorem setAvailEvent_ok (h : RingsMapped q m) (v : U16) :
    ∃ m', q.setAvailEvent m v = .ok m' ∧
      Wrote (q.usedRing.toNat + (4 + 8 * q.size.toNat)) (leBytes 2 v.toNat) m m' := by
  obtain ⟨ha, hlt⟩ := h.used_atomic (4 + 8 * q.size.toNat) (by omega) (by omega)
  exact storeAt_ok ha hlt v

theorem setUsedFlags_ok (h : RingsMapped q m) (v : U16) :
    ∃ m', q.setUsedFlags m v = .ok m' ∧ Wrote q.usedRing.toNat (leBytes 2 v.toNat) m m' := by
  obtain ⟨ha, _⟩ := h.used_atomic 0 (by omega) (by omega)
  obtain ⟨m', hs, hw⟩ := store_of_atomicAt ha v
  refine ⟨m', ?_, hw⟩
  unfold setUsedFlags
  rw [Nat.add_zero] at hs
  rw [hs]

theorem setNotification_ok (h : RingsMapped q m) (enable : Bool) :
    ∃ m', q.setNotification m enable = .ok m' ∧ SameLayout m m' ∧
      SameOutside (Range q.usedRing.toNat (6 + 8 * q.size.toNat)) m m' := by
  have hout : ∀ {a : ℕ} {v : U16} {m' : M}, Wrote a (leBytes 2 v.toNat) m m' →
      q.usedRing.toNat ≤ a → a + 2 ≤ q.usedRing.toNat + (6 + 8 * q.size.toNat) →
      SameOutside (Range q.usedRing.toNat (6 + 8 * q.size.toNat)) m m' := by
    intro a v m' hw h1 h2
    refine hw.frame.mono fun x hx => hx.mono h1 ?_
    rwa [length_leBytes]
  unfold setNotification
  split_ifs
  · obtain ⟨m', hs, hw⟩ := setAvailEvent_ok h q.nextAvail
    exact ⟨m', hs, hw.layout, hout hw (by omega) (by omega)⟩
  · obtain ⟨m', hs, hw⟩ := setUsedFlags_ok h 0
    exact ⟨m', hs, hw.layout, hout hw (by omega) (by omega)⟩
  · obtain ⟨m', hs, hw⟩ := setUsedFlags_ok h vringUsedFNoNotify
    exact ⟨m', hs, hw.layout, hout hw (by omega) (by omega)⟩
  · exact ⟨m, rfl, SameLayout.refl m, fun _ _ => rfl⟩

theorem moreAvailable_eq (h : RingsMapped q m) :
    q.moreAvailable m = .ok (q.availIdxField m != q.nextAvail) := by
  unfold moreAvailable
  rw [availIdx_eq h]

theorem needsNotification_ok (h : RingsMapped q m) :
    ∃ b q', q.needsNotification m = .ok (b, q') := by
  unfold needsNotification
  split_ifs
  · rw [usedEvent_eq h]
    exact ⟨_, _, rfl⟩
  · exact ⟨_, _, rfl⟩

@[simp] theorem length_usedElem : e.toBytes.length = 8 := by
  simp [VirtqUsedElem.toBytes]

theorem addUsed_ok (h : RingsMapped q m) (hh : head < q.size) (len : U32) :
    ∃ m₁ m₂, q.addUsed m head len = (.ok (), q.bumpUsed, m₂) ∧
      Wrote (q.usedRing.toNat + (4 + (q.nextUsed % q.size).toNat * 8))
        (VirtqUsedElem.toBytes ⟨head.setWidth 32, len⟩) m m₁ ∧
      Wrote (q.usedRing.toNat + 2) (leBytes 2 (q.nextUsed + 1).toNat) m₁ m₂ := by
  have hslot := nextUsed_slot_lt hh
  generalize ha : q.usedRing.toNat + (4 + (q.nextUsed % q.size).toNat * 8) = a
  have hm : Mapped m a 8 := h.used.mono (by omega) (by omega)
  have hlt := hm.lt (by omega)
  have hlen := length_usedElem ⟨head.setWidth 32, len⟩
  have hw : Wrote a (VirtqUsedElem.toBytes ⟨head.setWidth 32, len⟩) m _ :=
    writeSlice_wrote (by rwa [hlen])
  have hok : (writeSlice m a (VirtqUsedElem.toBytes ⟨head.setWidth 32, len⟩)).2 = true := by
    rw [LawfulGuestMemory.writeSlice_ok (by intro h0; simp [h0] at hlen), hlen]
    exact hm
  -- the element is in; the index goes to the same, still mapped, ring
  have h₁ := h.congr (SameConfig.refl q) hw.layout
  obtain ⟨ha₂, hlt₂⟩ := h₁.used_atomic 2 (by omega) (by omega)
  obtain ⟨m₂, hs, hw₂⟩ := storeAt_ok ha₂ hlt₂ (q.nextUsed + 1)
  refine ⟨_, m₂, ?_, hw, hw₂⟩
  unfold addUsed virtqUsedRingHeaderSize virtqUsedElementSize
  rw [if_neg (by bv_omega)]
  simp only [checkedAdd, ha, if_pos (show a < 2 ^ 64 by omega)]
  rw [← Prod.mk.eta (p := writeSlice m a _), hok]
  simp only [hs, bumpUsed]

/-- What the driver then finds: the index has moved on, the element stands in the cell of the old
index, and the other cells are as they were. -/
theorem addUsed_spec (h : RingsMapped q m) (hh : head < q.size) (len : U32) :
    ∃ m', q.addUsed m head len = (.ok (), q.bumpUsed, m') ∧
      q.usedIdxField m' = q.nextUsed + 1 ∧
      q.usedCell m' (q.nextUsed % q.size).toNat = ⟨head.setWidth 32, len⟩ ∧
      ∀ i, i ≠ (q.nextUsed % q.size).toNat → q.usedCell m' i = q.usedCell m i := by
  obtain ⟨m₁, m₂, he, hw₁, hw₂⟩ := addUsed_ok h hh len
  have hlen := length_usedElem ⟨head.setWidth 32, len⟩
  -- the index does not overlap the cells
  have hidx : ∀ i, q.usedCell m₂ i = q.usedCell m₁ i := by
    intro i
    unfold usedCell
    rw [bytesAt_congr (hw₂.sameOn (apart_of_le ?_))]
    rw [length_leBytes]
    omega
  refine ⟨m₂, he, hw₂.field16_eq, ?_, fun i hi => ?_⟩
  · have hb := hw₁.bytes
    rw [hlen] at hb
    rw [hidx]
    unfold usedCell
    rw [hb, VirtqUsedElem.ofBytes_toBytes]
  · rw [hidx]
    unfold usedCell
    rw [bytesAt_congr (hw₁.sameOn (apart_of_le ?_))]
    omega

theorem addUsed_run (h : RingsMapped q m) (hh : head < q.size) (len : U32) :
    ∃ m', q.addUsed m head len = (.ok (), q.bumpUsed, m') ∧ SameLayout m m' ∧
      SameOutside (Range q.usedRing.toNat (6 + 8 * q.size.toNat)) m m' := by
  obtain ⟨m₁, m₂, he, hw₁, hw₂⟩ := addUsed_ok h hh len
  have hslot := nextUsed_slot_lt hh
  refine ⟨m₂, he, hw₁.layout.trans hw₂.layout, fun x hx => ?_⟩
  unfold Range at hx
  refine (hw₂.frame x ?_).trans (hw₁.frame x ?_) <;> unfold Range
  · rw [length_leBytes]
    omega
  · rw [length_usedElem]
    omega

/-- A call of `addUsed`, accepted or not, writes only in the used ring and changes only two counters
of the queue. -/
theorem addUsed_frame (h : RingsMapped q m) (head : U16) (len : U32) :
    SameLayout m (q.addUsed m head len).2.2 ∧
      ((q.addUsed m head len).2.1 = q ∨ (q.addUsed m head len).2.1 = q.bumpUsed) ∧
      SameOutside (Range q.usedRing.toNat (6 + 8 * q.size.toNat)) m
        (q.addUsed m head len).2.2 := by
  by_cases hh : head < q.size
  · obtain ⟨m', he, hlayout, hout⟩ := addUsed_run h hh len
    rw [he]
    exact ⟨hlayout, .inr rfl, hout⟩
  · rw [addUsed_rejected hh]
    exact ⟨SameLayout.refl m, .inl rfl, fun _ _ => rfl⟩

theorem addUsed_config (h : RingsMapped q m) (head : U16) (len : U32) :
    SameConfig q (q.addUsed m head len).2.1 := by
  rcases (addUsed_frame h head len).2.1 with he | he <;> rw [he]
  · exact .refl q
  · exact .bumpUsed q

end Specs

/-! ## What the fields depend on -/

section Frames

variable {q q' : Queue} {m m' : M} {i : ℕ}

theorem availCell_congr (hq : q'.availRing = q.availRing)
    (h : SameOn q.availRing.toNat (6 + 2 * q.size.toNat) m m') (hi : i < q.size.toNat) :
    q'.availCell m' i = q.availCell m i := by
  unfold availCell
  rw [hq]
  exact field16_congr (h.mono (by omega) (by omega))

theorem availIdxField_congr (hq : q'.availRing = q.availRing)
    (h : SameOn q.availRing.toNat (6 + 2 * q.size.toNat) m m') :
    q'.availIdxField m' = q.availIdxField m := by
  unfold availIdxField
  rw [hq]
  exact field16_congr (h.mono (by omega) (by omega))

theorem usedCell_congr (hq : q'.usedRing = q.usedRing)
    (h : SameOn q.usedRing.toNat (6 + 8 * q.size.toNat) m m') (hi : i < q.size.toNat) :
    q'.usedCell m' i = q.usedCell m i := by
  unfold usedCell
  rw [hq, bytesAt_congr (h.mono (by omega) (by omega))]

theorem usedIdxField_congr (hq : q'.usedRing = q.usedRing)
    (h : SameOn q.usedRing.toNat (6 + 8 * q.size.toNat) m m') :
    q'.usedIdxField m' = q.usedIdxField m := by
  unfold usedIdxField
  rw [hq]
  exact field16_congr (h.mono (by omega) (by omega))

end Frames

end Queue

/-! ## A concrete queue -/

/-- A queue of four entries: table at 0, available ring at 0x80, used ring at 0xc0. -/
def smallQueue : Queue :=
  { Queue.new 16 with size := 4, ready := true, availRing := 0x80, usedRing := 0xc0 }

def smallMemory : FlatMemory := FlatMemory.zeroed [⟨0, 0x200⟩] (by decide)

theorem smallQueue_rings : smallQueue.RingsMapped smallMemory := by decide

theorem smallQueue_apart : Apart smallQueue.usedRing.toNat (6 + 8 * smallQueue.size.toNat)
    smallQueue.availRing.toNat (6 + 2 * smallQueue.size.toNat) := apart_of_le (by decide)

end Shelter.Virtio
