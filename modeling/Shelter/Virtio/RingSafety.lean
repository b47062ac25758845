import Shelter.Virtio.MmioStatus

/-!
# Ring accesses of an activated device

Nothing between the registers and the rings checks where the driver has put them: `Queue.isValid` is
never called, and `pop` and the functions for notifications unwrap the results of their accesses. A
machine joins the transport, the guest memory and the copies of the queues that workers and ports
take, and `ring_accesses_mapped` says what a guest has to keep to so that no access leaves mapped
memory and nothing panics.
-/

open Bytes Run

namespace Shelter.Virtio

open MmioTransport Queue Option List

variable {M : Type} [GuestMemory M]

/-! ## Ring operations -/

/-- The functions of a queue that access its rings, with `undo_pop`. -/
inductive RingOp
  | len
  | pop
  | undoPop
  | addUsed (headIndex : U16) (len : U32)
  | usedEvent
  | setAvailEvent (val : U16)
  | setUsedFlags (val : U16)
  | enableNotification
  | disableNotification
  | needsNotification
  deriving DecidableEq, Repr

namespace Queue

variable (q : Queue)

def availIdxAt : ℕ × ℕ := (q.availRing.toNat + 2, 2)

/-- The entry that `pop` reads. The sum wraps, as `unchecked_add` does. -/
def availEntryAt : ℕ × ℕ := ((q.availRing.toNat + q.indexOffset.toNat) % 2 ^ 64, 2)

def usedEventAt : ℕ × ℕ :=
  (q.availRing.toNat + (virtqAvailRingHeaderSize + q.size.toNat * virtqAvailElementSize), 2)

def usedElementAt : ℕ × ℕ :=
  (q.usedRing.toNat +
    (virtqUsedRingHeaderSize + (q.nextUsed % q.size).toNat * virtqUsedElementSize), 8)

def usedIdxAt : ℕ × ℕ := (q.usedRing.toNat + 2, 2)

def availEventAt : ℕ × ℕ :=
  (q.usedRing.toNat + (virtqUsedRingHeaderSize + virtqUsedElementSize * q.size.toNat), 2)

def usedFlagsAt : ℕ × ℕ := (q.usedRing.toNat, 2)

/-- What is the device's to write. -/
def deviceAt : List (ℕ × ℕ) := [q.usedElementAt, q.usedIdxAt, q.availEventAt, q.usedFlagsAt]

end Queue

namespace RingOp

/-- The ranges of the rings, as address and length, that the operation accesses. -/
def accesses (q : Queue) (m : M) : RingOp → List (ℕ × ℕ)
  | len => [q.availIdxAt]
  | pop =>
    if q.len m = some 0 ∨ q.actualSize = 0 then [q.availIdxAt] else [q.availIdxAt, q.availEntryAt]
  | undoPop => []
  | addUsed headIndex _ => if q.size ≤ headIndex then [] else [q.usedElementAt, q.usedIdxAt]
  | usedEvent => [q.usedEventAt]
  | setAvailEvent _ => [q.availEventAt]
  | setUsedFlags _ => [q.usedFlagsAt]
  | enableNotification =>
    [if q.eventIdxEnabled then q.availEventAt else q.usedFlagsAt, q.availIdxAt]
  | disableNotification => if q.eventIdxEnabled then [] else [q.usedFlagsAt]
  | needsNotification => if q.eventIdxEnabled then [q.usedEventAt] else []

/-- The operation as the devices call it: they unwrap every result but that of `add_used`, whose
errors they log. -/
def run (q : Queue) (m : M) : RingOp → Option (Queue × M)
  | len => (q.len m).map fun _ => (q, m)
  | pop => (q.pop m).map fun r => (r.2, m)
  | undoPop => some (q.undoPop, m)
  | addUsed headIndex usedLen => some (q.addUsed m headIndex usedLen).2
  | usedEvent => (q.usedEvent m).toOption.map fun _ => (q, m)
  | setAvailEvent val => (q.setAvailEvent m val).toOption.map fun m' => (q, m')
  | setUsedFlags val => (q.setUsedFlags m val).toOption.map fun m' => (q, m')
  | enableNotification =>
    (q.enableNotification m).1.toOption.map fun _ => (q, (q.enableNotification m).2)
  | disableNotification => (q.disableNotification m).toOption.map fun m' => (q, m')
  | needsNotification => (q.needsNotification m).toOption.map fun r => (r.2, m)

/-! ### What an operation leaves alone -/

def Within (ranges : List (ℕ × ℕ)) (x : ℕ) : Prop := ∃ r ∈ ranges, Range r.1 r.2 x

/-- The memory changes in these ranges at most, and the queue in its counters. -/
structure Frame (ranges : List (ℕ × ℕ)) (q : Queue) (m : M) (q' : Queue) (m' : M) : Prop where
  config : Queue.SameConfig q q'
  layout : SameLayout m m'
  outside : SameOutside (Within ranges) m m'

theorem Frame.refl (ranges : List (ℕ × ℕ)) (q : Queue) (m : M) : Frame ranges q m q m :=
  ⟨.refl q, .refl m, .refl _ m⟩

theorem Frame.trans {ranges : List (ℕ × ℕ)} {q₁ q₂ q₃ : Queue} {m₁ m₂ m₃ : M}
    (h : Frame ranges q₁ m₁ q₂ m₂) (h' : Frame ranges q₂ m₂ q₃ m₃) : Frame ranges q₁ m₁ q₃ m₃ :=
  ⟨h.config.trans h'.config, h.layout.trans h'.layout, h.outside.trans h'.outside⟩

section Frame

variable [LawfulGuestMemory M] {q : Queue} {m m' : M} {ranges : List (ℕ × ℕ)} {addr : ℕ} {v : U16}

theorem frame_of_writeSlice {bytes : List Byte} (hr : (addr, bytes.length) ∈ ranges) :
    Frame ranges q m q (writeSlice m addr bytes).1 :=
  ⟨.refl q, LawfulGuestMemory.writeSlice_find m addr bytes,
    (writeSlice_sameOutside m addr bytes).mono fun _ hx => ⟨_, hr, hx⟩⟩

theorem frame_of_store (h : store m addr v = some m') (hr : (addr, 2) ∈ ranges) :
    Frame ranges q m q m' := by
  rw [LawfulGuestMemory.store_eq] at h
  split_ifs at h
  cases h
  exact frame_of_writeSlice (by rwa [length_leBytes])

theorem frame_of_storeAt {base : U64} {off : ℕ} (h : Queue.storeAt m base off v = .ok m')
    (hr : (base.toNat + off, 2) ∈ ranges) : Frame ranges q m q m' := by
  unfold Queue.storeAt checkedAdd at h
  split_ifs at h
  simp only at h
  split at h <;> cases h
  next hs => exact frame_of_store hs hr

theorem frame_of_setUsedFlags (h : q.setUsedFlags m v = .ok m') (hr : q.usedFlagsAt ∈ ranges) :
    Frame ranges q m q m' := by
  unfold Queue.setUsedFlags at h
  split at h <;> cases h
  next hs => exact frame_of_store hs hr

theorem frame_of_setNotification {enable : Bool} (h : q.setNotification m enable = .ok m')
    (he : enable = true → q.eventIdxEnabled = true → q.availEventAt ∈ ranges)
    (hf : q.eventIdxEnabled = false → q.usedFlagsAt ∈ ranges) : Frame ranges q m q m' := by
  unfold Queue.setNotification at h
  split_ifs at h with h1 h2 h3
  · exact frame_of_storeAt h (he h1 h2)
  · exact frame_of_setUsedFlags h (hf (Bool.eq_false_of_not_eq_true h2))
  · exact frame_of_setUsedFlags h (hf (by simpa using h3))
  · cases h
    exact .refl _ _ _

theorem frame_of_enableNotification (q : Queue) (m : M)
    (he : q.eventIdxEnabled = true → q.availEventAt ∈ ranges)
    (hf : q.eventIdxEnabled = false → q.usedFlagsAt ∈ ranges) :
    Frame ranges q m q (q.enableNotification m).2 := by
  unfold Queue.enableNotification
  split
  · exact .refl _ _ _
  · next hn => exact frame_of_setNotification hn (fun _ => he) hf

/-- Also a call that fails half-way writes nothing but the element and the index. -/
theorem frame_of_addUsed (q : Queue) (m : M) (headIndex : U16) (usedLen : U32) :
    Frame ((addUsed headIndex usedLen).accesses q m) q m (q.addUsed m headIndex usedLen).2.1
      (q.addUsed m headIndex usedLen).2.2 := by
  by_cases hh : q.size ≤ headIndex
  · rw [addUsed_rejected (by bv_omega)]
    exact .refl _ _ _
  have hacc : (addUsed headIndex usedLen).accesses q m = [q.usedElementAt, q.usedIdxAt] := if_neg hh
  rw [hacc]
  have hlen := length_usedElem ⟨headIndex.setWidth 32, usedLen⟩
  have helem := frame_of_writeSlice (q := q) (m := m)
    (show (q.usedElementAt.1, _) ∈ [q.usedElementAt, q.usedIdxAt] by rw [hlen]; exact .head _)
  unfold Queue.addUsed checkedAdd
  rw [if_neg hh]
  by_cases hlt : q.usedElementAt.1 < 2 ^ 64
  · simp only [Queue.usedElementAt] at hlt helem
    simp only [if_pos hlt]
    rcases hw : writeSlice m _ (VirtqUsedElem.toBytes ⟨headIndex.setWidth 32, usedLen⟩)
      with ⟨m₁, ok⟩
    rw [hw] at helem
    have hbump : Frame [q.usedElementAt, q.usedIdxAt] q m q.bumpUsed m₁ :=
      ⟨.bumpUsed q, helem.layout, helem.outside⟩
    cases ok with
    | false => exact helem
    | true =>
      rcases hs : Queue.storeAt m₁ q.usedRing 2 (q.nextUsed + 1) with e | m₂ <;> simp only [hs]
      · exact hbump
      · exact hbump.trans (frame_of_storeAt hs (.tail _ (.head _)))
  · simp only [Queue.usedElementAt] at hlt
    simp only [if_neg hlt]
    exact .refl _ _ _

theorem run_toOption {A B : Type} {x : Except QueueError A} {f : A → B} {r : B}
    (h : x.toOption.map f = some r) : ∃ a, x = .ok a ∧ f a = r := by
  cases x with
  | error e => cases h
  | ok a => exact ⟨a, rfl, Option.some.inj h⟩

/-- **Frame.** An operation changes nothing but bytes of the ranges it accesses and counters of the
queue. -/
theorem run_frame {r : Queue × M} (op : RingOp) (h : op.run q m = some r) :
    Frame (op.accesses q m) q m r.1 r.2 := by
  cases op with
  | len =>
    obtain ⟨_, _, rfl⟩ := map_eq_some_iff.mp h
    exact .refl _ _ _
  | pop =>
    obtain ⟨_, hp, rfl⟩ := map_eq_some_iff.mp h
    exact ⟨pop_config hp, .refl m, .refl _ m⟩
  | undoPop =>
    cases h
    exact ⟨.withNextAvail q _, .refl m, .refl _ m⟩
  | addUsed headIndex usedLen =>
    cases h
    exact frame_of_addUsed q m headIndex usedLen
  | usedEvent =>
    obtain ⟨_, _, rfl⟩ := run_toOption h
    exact .refl _ _ _
  | setAvailEvent val =>
    obtain ⟨_, hs, rfl⟩ := run_toOption h
    exact frame_of_storeAt hs (.head _)
  | setUsedFlags val =>
    obtain ⟨_, hs, rfl⟩ := run_toOption h
    exact frame_of_setUsedFlags hs (.head _)
  | enableNotification =>
    obtain ⟨_, _, rfl⟩ := run_toOption h
    refine frame_of_enableNotification q m (fun he => ?_) (fun he => ?_)
    · simp [accesses, he]
    · simp [accesses, he]
  | disableNotification =>
    obtain ⟨_, hs, rfl⟩ := run_toOption h
    refine frame_of_setNotification hs (fun he => Bool.noConfusion he) (fun he => ?_)
    simp [accesses, he]
  | needsNotification =>
    obtain ⟨⟨b, q'⟩, hs, rfl⟩ := run_toOption h
    exact ⟨(needsNotification_config hs).1, .refl m, .refl _ m⟩

theorem run_byte {r : Queue × M} (op : RingOp) (h : op.run q m = some r) {x : ℕ}
    (hx : ∀ a ∈ q.deviceAt, ¬ Range a.1 a.2 x) : byte r.2 x = byte m x := by
  cases op with
  | len | pop | usedEvent | needsNotification =>
    obtain ⟨_, _, rfl⟩ := map_eq_some_iff.mp h
    rfl
  | undoPop =>
    cases h
    rfl
  | enableNotification =>
    obtain ⟨_, _, rfl⟩ := run_toOption h
    have hf : Frame q.deviceAt q m q _ :=
      frame_of_enableNotification q m (by simp [deviceAt]) (by simp [deviceAt])
    exact hf.outside x fun ⟨a, ha, hxa⟩ => hx a ha hxa
  | addUsed | setAvailEvent | setUsedFlags | disableNotification =>
    refine (run_frame _ h).outside x fun ⟨a, ha, hxa⟩ => hx a ?_ hxa
    unfold accesses at ha
    grind [deviceAt]

end Frame

/-! ### Rings in mapped memory -/

section Mapped

variable {q : Queue} {m : M}

theorem usedElementAt_mapped (h : q.RingsMapped m) {head : U16} (hh : ¬ q.size ≤ head) :
    Mapped m q.usedElementAt.1 q.usedElementAt.2 := by
  have hslot := nextUsed_slot_lt (BitVec.not_le.mp hh)
  unfold Queue.usedElementAt virtqUsedRingHeaderSize virtqUsedElementSize
  exact h.used.mono (by omega) (by omega)

theorem fields_mapped (h : q.RingsMapped m) :
    ∀ r ∈ [q.availIdxAt, q.usedEventAt, q.usedFlagsAt, q.usedIdxAt, q.availEventAt],
      Mapped m r.1 r.2 := by
  simp only [forall_mem_cons]
  unfold Queue.usedEventAt Queue.availEventAt virtqAvailRingHeaderSize virtqAvailElementSize
    virtqUsedRingHeaderSize virtqUsedElementSize Queue.usedFlagsAt Queue.usedIdxAt Queue.availIdxAt
  exact ⟨h.avail.mono (by omega) (by omega), h.avail.mono (by omega) (by omega),
    h.used.mono (by omega) (by omega), h.used.mono (by omega) (by omega),
    h.used.mono (by omega) (by omega), nofun⟩

variable [LawfulGuestMemory M]

theorem availEntryAt_mapped (h : q.RingsMapped m) (h0 : q.actualSize ≠ 0) :
    Mapped m q.availEntryAt.1 q.availEntryAt.2 := by
  have hle := q.indexOffset_lt h0
  have hm : Mapped m (q.availRing.toNat + q.indexOffset.toNat) 2 :=
    h.avail.mono (by omega) (by omega)
  have hlt := hm.lt (by omega)
  unfold Queue.availEntryAt
  rwa [Nat.mod_eq_of_lt (by omega)]

theorem accesses_mapped (h : q.RingsMapped m) (op : RingOp) :
    ∀ r ∈ op.accesses q m, Mapped m r.1 r.2 := by
  have hfields := fields_mapped h
  simp only [forall_mem_cons] at hfields
  obtain ⟨hidx, hevent, hflags, hused, havail, -⟩ := hfields
  cases op <;> simp only [accesses]
  case pop =>
    split_ifs with h0
    · simp [hidx]
    · simp [hidx, availEntryAt_mapped h fun hz => h0 (.inr hz)]
  case addUsed headIndex usedLen =>
    split_ifs with hh
    · simp
    · simp [hused, usedElementAt_mapped h hh]
  all_goals
    try split_ifs
    all_goals simp [*]

theorem run_isSome (h : q.RingsMapped m) (op : RingOp) : (op.run q m).isSome = true := by
  cases op with
  | len => simp [run, len_eq h]
  | pop =>
    simp only [run, pop_eq h]
    split_ifs <;> rfl
  | undoPop | addUsed => rfl
  | usedEvent => simp [run, usedEvent_eq h, Except.toOption]
  | setAvailEvent val =>
    obtain ⟨m', hs, _⟩ := setAvailEvent_ok h val
    simp [run, hs, Except.toOption]
  | setUsedFlags val =>
    obtain ⟨m', hs, _⟩ := setUsedFlags_ok h val
    simp [run, hs, Except.toOption]
  | enableNotification =>
    obtain ⟨m', hs, hl, _⟩ := setNotification_ok h true
    have hmore := moreAvailable_eq (h.congr (.refl q) hl)
    simp [run, Queue.enableNotification, hs, hmore, Except.toOption]
  | disableNotification =>
    obtain ⟨m', hs, _⟩ := setNotification_ok h false
    simp [run, Queue.disableNotification, hs, Except.toOption]
  | needsNotification =>
    simp only [run, Queue.needsNotification, usedEvent_eq h]
    split_ifs <;> rfl

end Mapped

end RingOp

/-! ## Transport, memory and workers -/

structure Machine (M : Type) where
  transport : MmioTransport
  mem : M
  /-- the copies that workers and ports hold, each with the number of its queue -/
  copies : List (ℕ × Queue)

inductive Event
  /-- a register access by the guest -/
  | access (a : Access)
  /-- a write to guest memory, by the guest or by a device -/
  | write (addr : ℕ) (bytes : List Byte)
  /-- a worker or a port of the active device takes a copy of queue `i` -/
  | copy (i : ℕ)
  /-- the active device works on its own queue `i` -/
  | own (i : ℕ) (op : RingOp)
  /-- the worker or port with copy `j` works on it -/
  | worker (j : ℕ) (op : RingOp)
  deriving DecidableEq, Repr

namespace Machine

/-- Queue `i` of the device, once it is active. -/
def ownQueue (s : Machine M) (i : ℕ) : Option Queue :=
  if s.transport.device.activated then s.transport.device.queues[i]? else none

def step (s : Machine M) : Event → Option (Machine M)
  | .access a =>
    (s.transport.access a).map fun t =>
      { s with transport := t, copies := if t.device.activated then s.copies else [] }
  | .write addr bytes => some { s with mem := (writeSlice s.mem addr bytes).1 }
  | .copy i =>
    match s.ownQueue i with
    | some q => some { s with copies := s.copies ++ [(i, q)] }
    | none => some s
  | .own i op =>
    match s.ownQueue i with
    | some q =>
      (op.run q s.mem).map fun r =>
        { s with
          transport :=
            { s.transport with
              device :=
                { s.transport.device with queues := s.transport.device.queues.set i r.1 } }
          mem := r.2 }
    | none => some s
  | .worker j op =>
    match s.copies[j]? with
    | some (i, q) =>
      (op.run q s.mem).map fun r => { s with copies := s.copies.set j (i, r.1), mem := r.2 }
    | none => some s

/-- The queues numbered `i` that something works on: the device's own and the copies. -/
def Live (s : Machine M) (i : ℕ) (q : Queue) : Prop := s.ownQueue i = some q ∨ (i, q) ∈ s.copies

/-- A register access that leaves the device active leaves queue `i` with its rings in mapped
memory. -/
def Placed (i : ℕ) (s : Machine M) : Event → Prop
  | .access a =>
    ∀ t ∈ s.transport.access a, t.device.activated = true →
      ∀ q ∈ t.device.queues[i]?, q.RingsMapped s.mem
  | _ => True

instance (i : ℕ) (s : Machine M) (e : Event) : Decidable (s.Placed i e) := by
  unfold Placed
  cases e <;> infer_instance

def start (t : MmioTransport) (m : M) : Machine M := ⟨t, m, []⟩

/-! ## Every run -/

section Runs

variable {i : ℕ} {s s' : Machine M}

/-- Whatever works on queue `i` finds its rings in mapped memory. -/
def Safe (i : ℕ) (s : Machine M) : Prop := ∀ q, s.Live i q → q.RingsMapped s.mem

theorem Safe.access {a : Access} {t : MmioTransport} (hs : s.Safe i)
    (hp : s.Placed i (.access a)) (ht : s.transport.access a = some t) :
    Safe i { s with transport := t, copies := if t.device.activated then s.copies else [] } := by
  rintro q (hq | hq)
  · unfold ownQueue at hq
    split_ifs at hq with ha
    exact hp t ht ha q hq
  · simp only at hq
    split_ifs at hq
    · exact hs q (.inr hq)
    · cases hq

theorem Safe.withMem (hs : s.Safe i) {m' : M} (hm : SameLayout s.mem m') :
    Safe i { s with mem := m' } := fun q hq => (hs q hq).congr (.refl q) hm

variable {k : ℕ} {q q' : Queue}

theorem Safe.copy (hs : s.Safe i) (hq : s.ownQueue k = some q) :
    Safe i { s with copies := s.copies ++ [(k, q)] } := by
  rintro q' (hq' | hq')
  · exact hs q' (.inl hq')
  · rcases mem_append.mp hq' with hq' | hq'
    · exact hs q' (.inr hq')
    · obtain ⟨rfl, rfl⟩ := Prod.mk.inj (mem_singleton.mp hq')
      exact hs q' (.inl hq)

theorem Safe.own (hs : s.Safe i) (hq : s.ownQueue k = some q) (hc : Queue.SameConfig q q') : Safe i
    { s with transport := { s.transport with
        device := { s.transport.device with queues := s.transport.device.queues.set k q' } } } := by
  rintro p (hp | hp)
  · unfold ownQueue at hp
    split_ifs at hp with ha
    rw [List.getElem?_set] at hp
    split_ifs at hp with hk hlt
    · cases hp
      exact (hs q (.inl (hk ▸ hq))).congr hc (.refl _)
    · exact hs p (.inl ((if_pos ha).trans hp))
  · exact hs p (.inr hp)

theorem Safe.worker (hs : s.Safe i) {j : ℕ} (hq : s.copies[j]? = some (k, q))
    (hc : Queue.SameConfig q q') : Safe i { s with copies := s.copies.set j (k, q') } := by
  rintro p (hp | hp)
  · exact hs p (.inl hp)
  · rcases mem_or_eq_of_mem_set hp with hp | hp
    · exact hs p (.inr hp)
    · cases hp
      exact (hs q (.inr (mem_of_getElem? hq))).congr hc (.refl _)

theorem Safe.step [LawfulGuestMemory M] {e : Event} (hs : s.Safe i) (hp : s.Placed i e)
    (h : s.step e = some s') : s'.Safe i := by
  unfold Machine.step at h
  cases e with
  | access a =>
    obtain ⟨t, ht, rfl⟩ := map_eq_some_iff.mp h
    exact hs.access hp ht
  | write addr bytes =>
    cases h
    exact hs.withMem (LawfulGuestMemory.writeSlice_find _ _ _)
  | copy k =>
    simp only at h
    split at h
    · next hq =>
      cases h
      exact hs.copy hq
    · cases h
      exact hs
  | own k op =>
    simp only at h
    split at h
    · next hq =>
      obtain ⟨r, hr, rfl⟩ := map_eq_some_iff.mp h
      have hf := RingOp.run_frame op hr
      exact (hs.own hq hf.config).withMem hf.layout
    · cases h
      exact hs
  | worker j op =>
    simp only at h
    split at h
    · next hq =>
      obtain ⟨r, hr, rfl⟩ := map_eq_some_iff.mp h
      have hf := RingOp.run_frame op hr
      exact (hs.worker hq hf.config).withMem hf.layout
    · cases h
      exact hs

/-- **Ring accesses.** Take any run of register accesses, memory writes, copies taken and ring
operations in which every register access that leaves the device active leaves queue `i` with its
rings at even addresses in mapped memory. Then whatever operation is made next on queue `i` or on
a copy of it, by the device or a worker, accesses only mapped memory and does not panic. -/
theorem ring_accesses_mapped [LawfulGuestMemory M] {kind : DeviceKind} {features : U64}
    {config : List Byte} {shm : Option VirtioShmRegion} {evts : List U32} {m : M}
    {es : List Event} {q : Queue}
    (hp : Along step (Placed i) (start (.fresh kind features config shm evts) m) es)
    (hr : run step (start (.fresh kind features config shm evts) m) es = some s)
    (hq : s.Live i q) (op : RingOp) :
    (∀ r ∈ op.accesses q s.mem, Mapped s.mem r.1 r.2) ∧ (op.run q s.mem).isSome = true := by
  have h0 : (start (.fresh kind features config shm evts) m).Safe i := by
    rintro p (h | h)
    · cases h
    · cases h
  have hs : s.Safe i := along_invariant (P := Safe i) (fun _ _ _ hs hp h => hs.step hp h) h0 hp hr
  exact ⟨RingOp.accesses_mapped (hs q hq) op, RingOp.run_isSome (hs q hq) op⟩

/-- The event neither writes to `x` nor is an operation that may. -/
def Avoids (x : ℕ) (s : Machine M) : Event → Prop
  | .write addr bytes => ¬ Range addr bytes.length x
  | .own i _ => ∀ q ∈ s.ownQueue i, ∀ a ∈ q.deviceAt, ¬ Range a.1 a.2 x
  | .worker j _ => ∀ c ∈ s.copies[j]?, ∀ a ∈ c.2.deviceAt, ¬ Range a.1 a.2 x
  | .access _ | .copy _ => True

instance (x : ℕ) (s : Machine M) (e : Event) : Decidable (s.Avoids x e) := by
  unfold Avoids
  cases e <;> infer_instance

/-- **Used rings.** Wherever the driver has put the rings, and however the device and its workers
take turns, the functions of the queues change nothing in guest memory but the flags, the index, the
next element and the event field of the used ring. -/
theorem byte_kept [LawfulGuestMemory M] {x : ℕ} {es : List Event}
    (ha : Along step (Avoids x) s es) (hr : run step s es = some s') :
    byte s'.mem x = byte s.mem x := by
  refine along_invariant (P := fun t => byte t.mem x = byte s.mem x)
    (fun t e t' ht ha h => Eq.trans ?_ ht) rfl ha hr
  unfold Machine.step at h
  cases e with
  | access a =>
    obtain ⟨_, _, rfl⟩ := map_eq_some_iff.mp h
    rfl
  | write addr bytes =>
    cases h
    exact writeSlice_sameOutside _ _ _ x ha
  | copy k =>
    simp only at h
    split at h <;> cases h <;> rfl
  | own k op | worker k op =>
    simp only at h
    split at h
    · next hq =>
      obtain ⟨r, hr, rfl⟩ := map_eq_some_iff.mp h
      exact op.run_byte hr (ha _ hq)
    · cases h
      rfl

end Runs

/-- The registers that a driver writes to start the entropy device, with its rings at these
addresses. -/
def startRng (availRing usedRing : U32) : List Event :=
  (initWrites ++ [writeU32 0x38 4,
    writeU32 0x90 availRing, writeU32 0xa0 usedRing,
    writeU32 0x44 1, writeU32 0x70 15]).map .access

/-- The entropy device that `startRng` leaves. -/
def rngMachine (availRing usedRing : U64) : Machine FlatMemory :=
  start { rngActive with
    device := { rngActive.device with
      queues := [{ Queue.new 256 with
        size := 4, ready := true, availRing := availRing, usedRing := usedRing }] } } smallMemory

/-- With its rings in memory, the device can pop. -/
theorem ring_accesses_mapped_rng :
    run step (start rngTransport smallMemory) (startRng 0x80 0xc0) =
        some (rngMachine 0x80 0xc0) ∧
      ∃ q, (rngMachine 0x80 0xc0).Live 0 q ∧ (RingOp.pop.run q smallMemory).isSome = true := by
  have hr : run step (start rngTransport smallMemory) (startRng 0x80 0xc0) =
      some (rngMachine 0x80 0xc0) := rfl
  have hq : (rngMachine 0x80 0xc0).Live 0 _ := .inl rfl
  exact ⟨hr, _, hq, (ring_accesses_mapped (by decide +kernel) hr hq .pop).2⟩

/-- The driver may put the available ring outside of memory. Nothing checks it before the first
access, which panics. -/
theorem ring_access_unmapped :
    ∃ s q, run step (start rngTransport smallMemory) (startRng 0x1000 0xc0) = some s ∧
      s.transport.device.activated = true ∧ s.Live 0 q ∧
      ¬ (∀ r ∈ RingOp.pop.accesses q s.mem, Mapped s.mem r.1 r.2) ∧
      RingOp.pop.run q s.mem = none :=
  ⟨rngMachine 0x1000 0xc0, _, rfl, rfl, .inl rfl, by decide +kernel, rfl⟩

theorem byte_kept_rng : ∃ s ∈ run step (rngMachine 0x80 0xc0) [.copy 0, .worker 0 (.addUsed 1 7)],
    byte s.mem 0x82 = 0 := by
  obtain ⟨s, hs⟩ : ∃ s, run step (rngMachine 0x80 0xc0) [.copy 0, .worker 0 (.addUsed 1 7)] =
    some s := ⟨_, rfl⟩
  exact ⟨s, hs, byte_kept (by decide +kernel) hs⟩

end Machine

end Shelter.Virtio
