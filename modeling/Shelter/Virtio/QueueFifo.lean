import Shelter.Virtio.QueueHistory

/-!
# The queue as a FIFO

Each step of the driver and each call of the device keeps `Inv`, so it holds of every reachable
history (`inv_of_reachable`). `history_fifo` reads off it what the two parties see: the pops are
a prefix of what was published, and the used ring holds the last calls of `addUsed`.

The last part shows what becomes of a queue that `is_valid` would accept but whose rings overlap,
lie at odd addresses, or have 2^15 entries.
-/

open Bytes Ring

namespace Shelter.Virtio

open History FlatMemory DescriptorChain List Nat

variable {M : Type} [GuestMemory M]

/-! ## The calls of the device -/

theorem counter_succ {α : Type} {x : U16} {xs : List α} (h : x = BitVec.ofNat 16 xs.length)
    (a : α) : x + 1 = BitVec.ofNat 16 (xs ++ [a]).length := by
  rw [h, length_append, length_singleton]
  bv_omega

variable {s : History M} {n : ℕ} {h : U16}

theorem Inv.settle (h : Inv s) : Inv { s with undoable := false } where
  __ := h
  returned_le := h.returned_le.trans s.kept_le
  undoable_pos := by simp
  availCells := h.availCells.mono s.kept_le

theorem inv_undoPop (h : Inv s) (hu : s.undoable = true) :
    Inv { s with
      queue := s.queue.undoPop, popped := s.popped.dropLast, undoable := false } := by
  have hpos := h.undoable_pos hu
  have hkept : s.kept = s.popped.length - 1 := by simp [kept, hu]
  have hlen : s.popped.dropLast.length = s.kept := by rw [length_dropLast, hkept]
  exact {
    h with
    configured := h.configured.congr (.withNextAvail _ _) (SameLayout.refl _)
    popped_prefix := ( dropLast_prefix _).trans h.popped_prefix
    nextAvail := by
      show s.queue.nextAvail - 1 = BitVec.ofNat 16 s.popped.dropLast.length
      rw [hlen, hkept, h.nextAvail]
      bv_omega
    returned_le := h.returned_le.trans_eq hlen.symm
    undoable_pos := by simp
    availCells := h.availCells.mono hlen.ge }

theorem inv_popEmpty {q' : Queue} (h : Inv s) (hp : s.queue.pop s.mem = some (none, q')) :
    Inv { s with queue := q', undoable := false } := by
  obtain he | ⟨c, ⟨⟩, _⟩ := Queue.pop_cases hp
  · cases he
    exact h.settle

theorem Inv.usedSlot_eq (h : Inv s) :
    (s.queue.nextUsed % s.queue.size).toNat = slot s.queue.size.toNat s.used.length := by
  rw [h.nextUsed]
  exact toNat_ofNat_umod (Queue.sizeValid_dvd h.configured.sizeValid) _

section Device

variable [LawfulGuestMemory M] {s : History M} {q' : Queue} {id : U16} {len : U32} {m' : M}

theorem inv_pop {c : DescriptorChain} (h : Inv s) (hp : s.queue.pop s.mem = some (some c, q')) :
    Inv { s with queue := q', popped := s.popped ++ [c.index], undoable := true } := by
  have hlt : s.popped.length < s.published.length := by
    by_contra hge
    cases (h.pop_empty (le_antisymm h.popped_le (not_lt.mp hge))).symm.trans hp
  rw [h.pop_next hlt] at hp
  obtain ⟨_, _, hidx, hc'⟩ | ⟨_, hc'⟩ :=
    s.queue.popAt_cases s.mem (s.published.get ⟨s.popped.length, hlt⟩) <;> rw [hc'] at hp <;>
    cases hp
  have hpre : s.popped ++ [c.index] <+: s.published := by
    obtain ⟨tl, htl⟩ := h.popped_prefix
    have hget : s.published.get ⟨s.popped.length, hlt⟩ :: s.published.drop (s.popped.length + 1) =
        s.published.drop s.popped.length := by simp
    refine ⟨s.published.drop (s.popped.length + 1), ?_⟩
    rw [hidx, append_assoc, singleton_append, hget, ← htl, drop_left]
  -- the entry just popped may still be undone, so nothing is given up
  have hkept : (s.popped ++ [c.index]).length - 1 = s.popped.length := by simp
  exact {
    h with
    configured := h.configured.congr (.withNextAvail _ _) (SameLayout.refl _)
    popped_prefix := hpre
    nextAvail := counter_succ h.nextAvail c.index
    returned_le := (h.returned_le.trans s.kept_le).trans_eq hkept.symm
    undoable_pos := by simp
    availCells := h.availCells.mono (s.kept_le.trans_eq hkept.symm) }

theorem inv_addUsed (h : Inv s) (ha : s.queue.addUsed s.mem id len = (.ok (), q', m')) :
    Inv { s with
      queue := q', mem := m', undoable := false, used := s.used ++ [(id, len)],
      returned := min (s.returned + 1) s.popped.length } := by
  have hid : id < s.queue.size := by
    by_contra hid
    rw [Queue.addUsed_rejected hid] at ha
    cases ha
  obtain ⟨m₂, ha', hidx, hcell, hother⟩ := Queue.addUsed_spec h.configured.rings hid len
  obtain ⟨hlay, _, hframe⟩ := Queue.addUsed_frame h.configured.rings id len
  rw [ha'] at ha hlay hframe
  cases ha
  rw [h.usedSlot_eq] at hcell hother
  have hpos := Queue.sizeValid_pos h.configured.sizeValid
  -- the call stays inside the used ring, so the available ring is unchanged
  have hout : SameOn s.queue.availRing.toNat (6 + 2 * s.queue.size.toNat) s.mem m' :=
    hframe.sameOn h.configured.apartAvail
  have hhold : Holds (s.queue.usedCell m') s.queue.size.toNat (s.used.map usedElem ++
      [usedElem (id, len)]) (s.used.length + 1 - s.queue.size.toNat) := by
    refine (h.usedCells.mono (by omega)).push ?_ ?_ ?_
    · rw [length_map]; omega
    · rw [length_map]; exact hcell
    · rw [length_map]; exact fun i _ hne => hother i hne
  refine ⟨h.configured.congr (.bumpUsed _) hlay, h.popped_prefix, h.nextAvail, ?_, ?_, ?_, ?_,
    min_le_right _ _, by simp, ?_, ?_⟩
  · exact counter_succ h.nextUsed (id, len)
  · exact (Queue.availIdxField_congr rfl hout).trans h.availIdx
  · exact hidx.trans (counter_succ h.nextUsed (id, len))
  · have := h.room
    have := h.returned_le
    have := s.kept_le
    show s.published.length ≤ min _ _ + s.queue.size.toNat
    omega
  · exact (h.settle.availCells).congr hpos
      fun i hi => Queue.availCell_congr rfl hout hi
  · rw [map_append, length_append]
    exact hhold

theorem inv_addUsedFailed {e : QueueError} (h : Inv s)
    (ha : s.queue.addUsed s.mem id len = (.error e, q', m')) :
    Inv { s with queue := q', mem := m', undoable := false } := by
  have hid : ¬ id < s.queue.size := by
    intro hid
    obtain ⟨m₁, m₂, ha', _⟩ := Queue.addUsed_ok h.configured.rings hid len
    cases ha'.symm.trans ha
  rw [Queue.addUsed_rejected hid] at ha
  cases ha
  exact h.settle

theorem inv_step {s' : History M} (h : Inv s) (hs : Step s s') : Inv s' := by
  cases hs with
  | driver hs m' hd => exact inv_driver h hd
  | pop c q' hp => exact inv_pop h hp
  | popEmpty q' hp => exact inv_popEmpty h hp
  | undoPop hu => exact inv_undoPop h hu
  | addUsed id len q' m' ha => exact inv_addUsed h ha
  | addUsedFailed id len e q' m' ha => exact inv_addUsedFailed h ha

theorem inv_of_reachable {q : Queue} {m : M} (hc : Configured q m) (hf : Fresh q m)
    (h : Reachable q m s) : Inv s := by
  induction h with
  | refl => exact inv_start hc hf
  | tail _ hs ih => exact inv_step ih hs

/-- **FIFO.** In every reachable history of a configured queue that starts fresh, the heads
popped are a prefix of the heads published, and `pop` does not panic: while there is a next head
it returns its chain, if `checkedNew` accepts it, and nothing after that. A call of `addUsed` with
an index of the queue succeeds; after `n` of them the index field is `n` modulo `2 ^ 16`, and the
cells of the used ring hold the last `size` of them. -/
theorem history_fifo {q : Queue} {m : M} (hc : Configured q m) (hf : Fresh q m)
    {s : History M} (h : Reachable q m s) :
    s.popped <+: s.published ∧
      (∀ hlt : s.popped.length < s.published.length, s.queue.pop s.mem =
        some (s.queue.popAt s.mem (s.published.get ⟨s.popped.length, hlt⟩))) ∧
      (s.popped.length = s.published.length → s.queue.pop s.mem = some (none, s.queue)) ∧
      (∀ id len, id < s.queue.size → (s.queue.addUsed s.mem id len).1 = .ok ()) ∧
      s.queue.usedIdxField s.mem = BitVec.ofNat 16 s.used.length ∧
      (∀ k, 0 < k → ∀ hk : k - 1 < s.used.length, s.used.length < k + s.queue.size.toNat →
        s.queue.usedCell s.mem ((k - 1) % s.queue.size.toNat) =
          usedElem (s.used.get ⟨k - 1, hk⟩)) := by
  have hi := inv_of_reachable hc hf h
  refine ⟨hi.popped_prefix, hi.pop_next, hi.pop_empty, ?_, hi.usedIdx, ?_⟩
  · intro id len hid
    obtain ⟨_, _, ha, _⟩ := Queue.addUsed_ok hi.configured.rings hid len
    rw [ha]
  · intro k hk hlt hlast
    have hcell := hi.usedCells (k - 1) (by omega) (by rwa [length_map])
    rw [show (k - 1) % s.queue.size.toNat = slot s.queue.size.toNat (k - 1) from rfl, hcell]
    simp

end Device

/-! ## Runs on a concrete memory -/

namespace History

/-- The device calls `pop`; a panic leaves the history where it is. -/
def devicePop (s : History M) : History M :=
  match s.queue.pop s.mem with
  | some (some c, q') => { s with queue := q', popped := s.popped ++ [c.index], undoable := true }
  | some (none, q') => { s with queue := q', undoable := false }
  | none => s

def deviceAddUsed (s : History M) (id : U16) (len : U32) : History M :=
  match s.queue.addUsed s.mem id len with
  | (.ok (), q', m') =>
    { s with
      queue := q', mem := m', undoable := false, used := s.used ++ [(id, len)],
      returned := min (s.returned + 1) s.popped.length }
  | (.error _, q', m') => { s with queue := q', mem := m', undoable := false }

def deviceUndoPop (s : History M) : History M :=
  { s with queue := s.queue.undoPop, popped := s.popped.dropLast, undoable := false }

def driverPublish (s : History M) (hs : List U16) (m' : M) : History M :=
  { s with mem := m', published := s.published ++ hs }

omit [GuestMemory M] in
theorem start_cell_free {q : Queue} {m : M} {i : ℕ} (hi : i < (start q m).queue.size.toNat) :
    ∃ k, (start q m).published.length ≤ k ∧
      k < (start q m).returned + (start q m).queue.size.toNat ∧
      i = slot (start q m).queue.size.toNat k :=
  ⟨i, zero_le i, by simpa [start] using hi, (mod_eq_of_lt hi).symm⟩

variable {q' : Queue}

theorem devicePop_popped {c : DescriptorChain} (h : s.queue.pop s.mem = some (some c, q')) :
    s.devicePop.popped = s.popped ++ [c.index] := by
  unfold devicePop; rw [h]

theorem deviceAddUsed_ok {id : U16} {len : U32} {m' : M}
    (h : s.queue.addUsed s.mem id len = (.ok (), q', m')) :
    s.deviceAddUsed id len = { s with
      queue := q', mem := m', undoable := false, used := s.used ++ [(id, len)],
      returned := min (s.returned + 1) s.popped.length } := by
  unfold deviceAddUsed
  rw [h]

theorem deviceAddUsed_queue_mem (s : History M) (id : U16) (len : U32) :
    (s.deviceAddUsed id len).queue = (s.queue.addUsed s.mem id len).2.1 ∧
      (s.deviceAddUsed id len).mem = (s.queue.addUsed s.mem id len).2.2 := by
  unfold deviceAddUsed
  split <;> simp [*]

theorem devicePop_mem (s : History M) : s.devicePop.mem = s.mem := by
  unfold devicePop
  split <;> rfl

theorem devicePop_used (s : History M) : s.devicePop.used = s.used := by
  unfold devicePop
  split <;> rfl

theorem devicePop_config (s : History M) : Queue.SameConfig s.queue s.devicePop.queue := by
  unfold devicePop
  split
  · next hpop => exact Queue.pop_config hpop
  · next hpop => exact Queue.pop_config hpop
  · exact .refl _

theorem devicePop_published (s : History M) : s.devicePop.published = s.published := by
  unfold devicePop
  split <;> rfl

end History

section Runs

variable {q : Queue} {m : M} {s : History M}

theorem Reachable.start (q : Queue) (m : M) : Reachable q m (History.start q m) := .refl

theorem Reachable.driverPublish (h : Reachable q m s) {hs : List U16} {m' : M}
    (hd : DriverWrites s hs m') : Reachable q m (s.driverPublish hs m') :=
  h.tail (.driver hs m' hd)

theorem Reachable.devicePop (h : Reachable q m s) : Reachable q m s.devicePop := by
  unfold History.devicePop
  split
  · exact h.tail (.pop _ _ ‹_›)
  · exact h.tail (.popEmpty _ ‹_›)
  · exact h

theorem Reachable.deviceAddUsed (h : Reachable q m s) (id : U16) (len : U32) :
    Reachable q m (s.deviceAddUsed id len) := by
  unfold History.deviceAddUsed
  split
  · exact h.tail (.addUsed id len _ _ ‹_›)
  · exact h.tail (.addUsedFailed id len _ _ _ ‹_›)

end Runs

def smallPublished : FlatMemory :=
  smallMemory.put 0x82 (leBytes 2 2 ++ leBytes 2 2 ++ leBytes 2 1)

theorem smallQueue_configured : Configured smallQueue smallMemory where
  sizeValid := by decide
  small := by decide
  rings := smallQueue_rings
  apartAvail := smallQueue_apart

theorem smallQueue_fresh : Fresh smallQueue smallMemory :=
  ⟨by decide, by decide, by decide, by decide⟩

theorem smallQueue_driverWrites :
    DriverWrites (History.start smallQueue smallMemory) [2, 1] smallPublished where
  layout := sameLayout_put _ _ _
  used := sameOn_put _ (apart_of_le (by decide))
  cells := fun _ hi _ => start_cell_free hi
  fill := by decide
  idx := by decide
  room := by decide

/-- The history of two chains of which the first was popped and handed back. -/
def smallHistory : History FlatMemory :=
  ((History.start smallQueue smallMemory).driverPublish [2, 1] smallPublished).devicePop
    |>.deviceAddUsed 2 64

theorem smallHistory_reachable : Reachable smallQueue smallMemory smallHistory :=
  Reachable.start _ _ |>.driverPublish smallQueue_driverWrites |>.devicePop |>.deviceAddUsed 2 64

/-- After the first round the next head is popped and the used ring has the first chain. -/
theorem history_fifo_small :
    smallHistory.popped <+: smallHistory.published ∧
      smallHistory.queue.pop smallHistory.mem =
        some (smallHistory.queue.popAt smallHistory.mem 1) ∧
      smallHistory.queue.usedIdxField smallHistory.mem = 1 ∧
      smallHistory.queue.usedCell smallHistory.mem 0 = ⟨2, 64⟩ := by
  obtain ⟨hpre, hnext, _, _, hidx, hcell⟩ :=
    history_fifo smallQueue_configured smallQueue_fresh smallHistory_reachable
  exact ⟨hpre, hnext (by decide), hidx, hcell 1 (by decide) (by decide) (by decide)⟩

/-! ## Queues outside the configuration -/

/-- What is asked of a queue beyond `Configured`'s distances and alignment: a size that `is_valid`
accepts and rings in mapped memory. -/
structure Accepted (q : Queue) (m : M) : Prop where
  sizeValid : q.sizeValid = true
  avail : Mapped m q.availRing.toNat (6 + 2 * q.size.toNat)
  used : Mapped m q.usedRing.toNat (6 + 8 * q.size.toNat)

/-- The used ring starts at cell 2 of the available ring, so its index is cell 3. -/
def overlapQueue : Queue := { smallQueue with usedRing := 0x88 }

def overlapFirst : FlatMemory :=
  smallMemory.put 0x82 (leBytes 2 3 ++ leBytes 2 1 ++ leBytes 2 2)

/-- The driver has published 1, 2 and 0; the device has popped and handed back the first. -/
def overlapHistory : History FlatMemory :=
  ((History.start overlapQueue smallMemory).driverPublish [1, 2, 0] overlapFirst).devicePop
    |>.deviceAddUsed 1 8

/-- The driver publishes 1 again, in cell 3, which already holds 1: only the index changes. -/
def overlapSecond : FlatMemory := overlapHistory.mem.put 0x82 (leBytes 2 4)

/-- The device hands back the second chain and pops the two others. -/
def overlapFinal : History FlatMemory :=
  (((overlapHistory.driverPublish [1] overlapSecond).devicePop).deviceAddUsed 2 8).devicePop
    |>.devicePop

theorem overlapFirst_driverWrites :
    DriverWrites (History.start overlapQueue smallMemory) [1, 2, 0] overlapFirst where
  layout := sameLayout_put _ _ _
  used := sameOn_put _ (apart_of_le (by decide))
  cells := fun _ hi _ => start_cell_free hi
  fill := by decide
  idx := by decide
  room := by decide

theorem overlapHistory_logs : overlapHistory.published = [1, 2, 0] ∧
    overlapHistory.returned = 1 ∧ overlapHistory.queue = { overlapQueue with
      nextAvail := 1, nextUsed := 1, numAdded := 1 } := by decide +kernel

theorem overlapSecond_driverWrites : DriverWrites overlapHistory [1] overlapSecond := by
  obtain ⟨hpub, hret, hq⟩ := overlapHistory_logs
  refine ⟨sameLayout_put _ _ _, ?_, ?_, ?_, ?_, ?_⟩
  · rw [hq]
    exact sameOn_put _ (apart_of_le (by decide))
  · rw [hq]
    have hsame : ∀ i < 4, overlapQueue.availCell overlapSecond i =
        overlapQueue.availCell overlapHistory.mem i := by decide +kernel
    exact fun i hi hne => absurd (hsame i hi) hne
  · rw [hq, hpub]
    decide +kernel
  · rw [hq, hpub]
    decide +kernel
  · rw [hq, hpub, hret]
    decide

theorem overlapFinal_reachable : Reachable overlapQueue smallMemory overlapFinal :=
  Reachable.start _ _ |>.driverPublish overlapFirst_driverWrites |>.devicePop
    |>.deviceAddUsed 1 8 |>.driverPublish overlapSecond_driverWrites |>.devicePop
    |>.deviceAddUsed 2 8 |>.devicePop |>.devicePop

/-- Overwritten by the index of the used ring, the fourth entry is popped as 2. -/
theorem overlapFinal_logs :
    overlapFinal.published = [1, 2, 0, 1] ∧ overlapFinal.popped = [1, 2, 0, 2] := by
  decide +kernel

theorem overlapFinal_validHead : ∀ h ∈ [1, 2, 0, 1], overlapQueue.ValidHead overlapFinal.mem h :=
  forall_mem_cons.mpr ⟨by decide +kernel, forall_mem_cons.mpr ⟨by decide +kernel,
    forall_mem_cons.mpr ⟨by decide +kernel,
      forall_mem_singleton.mpr (by decide +kernel)⟩⟩⟩

/-! The largest size that `is_valid` accepts, with rings at good addresses. The `u16` offset of
the last two cells wraps around to the header of the ring. -/

def wideQueue : Queue :=
  { Queue.new 0x8000 with size := 0x8000, ready := true, availRing := 0x80000, usedRing := 0xa0000 }

/-- Zeroed, but for a flag of the available ring (the driver wants no interrupts). -/
def wideMemory : FlatMemory where
  regions := [⟨0, 0x100000⟩]
  layout := by decide
  data x := if x = 0x80000 then 1 else 0

def wideHeads : List U16 := (List.range 0x7fff).map (BitVec.ofNat 16)

/-- Cell `i` holds head `i`, and the index says that there are 0x7fff of them. -/
def widePublished : FlatMemory :=
  { wideMemory with
    data := fun x =>
      if x = 0x80000 then 1
      else if x = 0x80002 then 0xff
      else if x = 0x80003 then 0x7f
      else if 0x80004 ≤ x ∧ x < 0x90002 then
        BitVec.ofNat 8 ((x - 0x80004) / 2 / 256 ^ ((x - 0x80004) % 2))
      else 0 }

/-- The history after `n` pops. -/
def wideHistory (n : ℕ) : History FlatMemory where
  queue := { wideQueue with nextAvail := BitVec.ofNat 16 n }
  mem := widePublished
  published := wideHeads
  popped := wideHeads.take n
  undoable := decide (0 < n)
  used := []
  returned := 0

theorem wide_mapped {a : ℕ} (h : a + n ≤ 0x100000) : Mapped widePublished a n :=
  mapped_of_region (mem_singleton.mpr rfl) (zero_le a) (by simpa using h)

theorem wide_cell {i : ℕ} (hi : i < 0x7fff) :
    wideQueue.availCell widePublished i = BitVec.ofNat 16 i := by
  have hbyte : ∀ k < 2, byte widePublished (0x80000 + (4 + 2 * i) + k) =
      BitVec.ofNat 8 (i / 256 ^ k) := by
    intro k hk
    show widePublished.data _ = _
    have hsub : 0x80000 + (4 + 2 * i) + k - 0x80004 = 2 * i + k := by omega
    simp only [widePublished, hsub]
    rw [if_neg (by omega), if_neg (by omega), if_neg (by omega), if_pos (by omega),
      show (2 * i + k) % 2 = k by omega, show (2 * i + k) / 2 = i by omega]
  show BitVec.ofNat 16 (leNat [byte widePublished (0x80000 + (4 + 2 * i) + 0),
    byte widePublished (0x80000 + (4 + 2 * i) + 1)]) = _
  rw [hbyte 0 (by decide), hbyte 1 (by decide)]
  simp only [leNat, BitVec.toNat_ofNat]
  congr 1
  omega

theorem wide_checkedNew (hlt : h < 0x8000) :
    checkedNew widePublished 0 0x8000 h =
      some ⟨0, 0x8000, 0x8000, h, 0, 0, 0, 0⟩ := by
  have hn : h.toNat < 0x8000 := by bv_omega
  have hoff : ∀ {a off}, a + off ≤ 0x80000 →
      checkedOffset widePublished a off = some (a + off) := by
    intro a off hle
    have hm := wide_mapped (show a + off + 1 ≤ 0x100000 by omega) 0 (by omega)
    rw [add_zero] at hm
    unfold checkedOffset checkedAdd
    rw [if_pos (by omega), Option.filter_some, if_pos hm]
  have hbytes : bytesAt widePublished (h.toNat * 16) 16 = List.replicate 16 0 := by
    refine ext_getElem (by simp) fun i h1 _ => ?_
    rw [length_bytesAt] at h1
    simp only [bytesAt, getElem_map, getElem_range, getElem_replicate]
    show widePublished.data _ = _
    simp only [widePublished]
    rw [if_neg (by omega), if_neg (by omega), if_neg (by omega), if_neg (by omega)]
  have hread : readDescriptor widePublished (h.toNat * 16) = some ⟨0, 0, 0, 0⟩ := by
    unfold readDescriptor
    rw [readSlice_eq_some (by omega) (wide_mapped (by omega)), hbytes]
    decide
  unfold checkedNew
  rw [if_neg (by bv_omega), show (0 : U64).toNat = 0 from rfl, hoff (by omega)]
  simp only [Option.bind_eq_bind, Option.bind_some, zero_add]
  rw [hoff (by omega)]
  simp only [Option.bind_some, hread]
  exact if_pos (by simp [isValid, hasNext])

theorem wideQueue_rings : wideQueue.RingsMapped widePublished :=
  ⟨wide_mapped (by decide), wide_mapped (by decide), by decide, by decide⟩

theorem wide_rings (n : ℕ) : (wideHistory n).queue.RingsMapped widePublished :=
  wideQueue_rings.congr (.withNextAvail _ _) (SameLayout.refl _)

theorem wide_driverWrites :
    DriverWrites (History.start wideQueue wideMemory) wideHeads widePublished where
  layout := fun _ => rfl
  used := by
    intro x hx
    have hx1 : 0xa0000 ≤ x := hx.1
    show widePublished.data x = wideMemory.data x
    simp only [widePublished, wideMemory]
    rw [if_neg (by omega), if_neg (by omega), if_neg (by omega), if_neg (by omega),
      if_neg (by omega)]
  cells := fun _ hi _ => start_cell_free hi
  fill := by
    intro j hj
    have hj' : j < 0x7fff := by simpa [wideHeads] using hj
    have hslot : slot 0x8000 (0 + j) = j := by
      rw [zero_add]; exact mod_eq_of_lt (by omega)
    show wideQueue.availCell widePublished (slot 0x8000 (0 + j)) = _
    rw [hslot, wide_cell hj']
    simp [wideHeads]
  idx := by
    rw [show wideHeads.length = 0x7fff by simp [wideHeads]]
    decide
  room := by
    rw [show wideHeads.length = 0x7fff by simp [wideHeads]]
    decide

theorem wide_validHead : ∀ h ∈ wideHeads, wideQueue.ValidHead widePublished h := by
  refine forall_mem_map.mpr fun i hi => ?_
  have hi' := mem_range.mp hi
  show (checkedNew widePublished 0 0x8000 _).isSome = true
  rw [wide_checkedNew (by bv_omega)]
  rfl

/-- `pop` after `n` pops: the head it reads is where the wrapped offset points. -/
theorem wide_pop (hn : n < 0x7fff) (hlt : h < 0x8000)
    (hh : (wideHistory n).queue.headAt widePublished = h) :
    (wideHistory n).queue.pop widePublished =
      some (some ⟨0, 0x8000, 0x8000, h, 0, 0, 0, 0⟩,
        { wideQueue with nextAvail := BitVec.ofNat 16 n + 1 }) := by
  have hidx : (wideHistory n).queue.availIdxField widePublished = 0x7fff := by
    show wideQueue.availIdxField widePublished = _
    decide
  have hne : ¬ ((wideHistory n).queue.availIdxField widePublished =
      (wideHistory n).queue.nextAvail ∨ (wideHistory n).queue.actualSize = 0) := by
    rw [hidx]
    rintro (he | he)
    · have he : 0x7fff = BitVec.ofNat 16 n := he
      bv_omega
    · exact absurd (show wideQueue.actualSize = 0 from he) (by decide)
  rw [Queue.pop_eq (wide_rings n), if_neg hne, hh]
  have hc : checkedNew widePublished (wideHistory n).queue.descTable
      (wideHistory n).queue.actualSize h = some ⟨0, 0x8000, 0x8000, h, 0, 0, 0, 0⟩ :=
    wide_checkedNew hlt
  unfold Queue.popAt
  rw [hc]
  rfl

theorem wide_indexOffset (hn : n < 0x7fff) :
    (wideHistory n).queue.indexOffset = BitVec.ofNat 16 (4 + 2 * n) := by
  show 4 + 2 * (BitVec.ofNat 16 n % 0x8000) = _
  have hmod : BitVec.ofNat 16 n % 0x8000 = BitVec.ofNat 16 n := by
    apply BitVec.eq_of_toNat_eq
    exact mod_eq_of_lt (by show n % 2 ^ 16 < 0x8000; omega)
  bv_omega

theorem wideHistory_reachable (hn : n ≤ 0x7ffe) :
    Reachable wideQueue wideMemory (wideHistory n) := by
  induction n with
  | zero =>
    have h := (Reachable.start _ _).driverPublish wide_driverWrites
    rwa [driverPublish, History.start, nil_append] at h
  | succ n ih =>
    have hhead : (wideHistory n).queue.headAt widePublished = BitVec.ofNat 16 n := by
      unfold Queue.headAt
      rw [wide_indexOffset (by omega), show (BitVec.ofNat 16 (4 + 2 * n)).toNat = 4 + 2 * n by
        rw [BitVec.toNat_ofNat]; omega]
      exact wide_cell (by omega)
    have hpop := wide_pop (by omega) (by bv_omega) hhead
    have hstep := Step.pop (s := wideHistory n) _ _ hpop
    have heq : wideHistory (n + 1) = { wideHistory n with
        queue := { wideQueue with nextAvail := BitVec.ofNat 16 n + 1 },
        popped := (wideHistory n).popped ++ [BitVec.ofNat 16 n], undoable := true } := by
      have htake : wideHeads.take (n + 1) = wideHeads.take n ++ [BitVec.ofNat 16 n] := by
        rw [take_add_one]
        simp [wideHeads, List.getElem?_range (show n < 0x7fff by omega)]
      have hctr : BitVec.ofNat 16 (n + 1) = BitVec.ofNat 16 n + 1 := by bv_omega
      simp only [wideHistory, htake, hctr]
      simp
    rw [heq]
    exact (ih (by omega)).tail hstep

/-- The pop after 0x7ffe pops reads the flags of the ring instead of cell 0x7ffe. -/
theorem wide_lastPop (hn : n = 0x7ffe) :
    (wideHistory n).devicePop.popped = wideHeads.take n ++ [1] := by
  have hoff : (wideHistory n).queue.indexOffset = 0 := by
    rw [wide_indexOffset (by omega), hn]
    decide
  have hhead : (wideHistory n).queue.headAt widePublished = 1 := by
    unfold Queue.headAt
    rw [hoff]
    show field16 widePublished (wideQueue.availRing.toNat + 0) = 1
    decide
  exact devicePop_popped (wide_pop (by omega) (by decide) hhead)

theorem wide_not_fifo (hn : n = 0x7ffe) :
    ¬ (wideHistory n).devicePop.popped <+: (wideHistory n).devicePop.published := by
  rw [wide_lastPop hn, devicePop_published, wideHistory]
  intro hpre
  have hlen : (wideHeads.take n).length = n := by simp [wideHeads, hn]
  have hget := hpre.getElem (show n < (wideHeads.take n ++ [1]).length by simp [hlen])
  simp [wideHeads] at hget
  bv_omega

/-- **What the configuration is for.** A size that `is_valid` accepts, mapped rings and valid heads
are not enough. If the used ring overlaps the available ring, a published entry is overwritten
before it is popped. If the used ring lies at an odd address, a call of `addUsed` with an index of
the queue fails and the index field stays; if the available ring does, `pop` panics. If the queue
has 2^15 entries, `pop` reads its last two cells in the header of the ring. -/
theorem history_fifo_needs_configured :
    (∃ (q : Queue) (m : FlatMemory) (s : History FlatMemory), Accepted q m ∧ Fresh q m ∧
      q.size.toNat ≤ 2 ^ 14 ∧ q.RingsMapped m ∧ Reachable q m s ∧
      (∀ h ∈ s.published, q.ValidHead s.mem h) ∧ ¬ s.popped <+: s.published) ∧
    (∃ (q : Queue) (m : FlatMemory) (id : U16) (len : U32), Accepted q m ∧ Fresh q m ∧
      q.size.toNat ≤ 2 ^ 14 ∧ id < q.size ∧
      (q.addUsed m id len).1 = .error .guestMemory ∧
      q.usedIdxField (q.addUsed m id len).2.2 = 0) ∧
    (∃ (q : Queue) (m : FlatMemory), Accepted q m ∧ Fresh q m ∧ q.size.toNat ≤ 2 ^ 14 ∧
      q.pop m = none) ∧
    (∃ (q : Queue) (m : FlatMemory) (s : History FlatMemory), Accepted q m ∧ Fresh q m ∧
      q.RingsMapped m ∧
      Apart q.usedRing.toNat (6 + 8 * q.size.toNat) q.availRing.toNat (6 + 2 * q.size.toNat) ∧
      Reachable q m s ∧ (∀ h ∈ s.published, q.ValidHead s.mem h) ∧
      ¬ s.popped <+: s.published) := by
  refine ⟨⟨overlapQueue, smallMemory, overlapFinal, ⟨by decide, by decide, by decide⟩,
      ⟨by decide, by decide, by decide, by decide⟩, by decide,
      ⟨by decide, by decide, by decide, by decide⟩, overlapFinal_reachable, ?_, ?_⟩,
    ⟨{ smallQueue with usedRing := 0xc1 }, smallMemory, 1, 8, ⟨by decide, by decide, by decide⟩,
      ⟨by decide, by decide, by decide, by decide⟩, by decide, by decide, by decide, by decide⟩,
    ⟨{ smallQueue with availRing := 0x81 }, smallMemory, ⟨by decide, by decide, by decide⟩,
      ⟨by decide, by decide, by decide, by decide⟩, by decide, by decide⟩, ?_⟩
  · rw [overlapFinal_logs.1]
    exact overlapFinal_validHead
  · rw [overlapFinal_logs.1, overlapFinal_logs.2]
    decide
  · have hmap : ∀ {a n}, a + n ≤ 0x100000 → Mapped wideMemory a n := fun h => wide_mapped h
    refine ⟨wideQueue, wideMemory, (wideHistory 0x7ffe).devicePop,
      ⟨by decide, hmap (by decide), hmap (by decide)⟩,
      ⟨by decide, by decide, by decide, by decide⟩,
      ⟨hmap (by decide), hmap (by decide), by decide, by decide⟩, apart_of_le (by decide),
      (wideHistory_reachable le_rfl).devicePop, ?_, wide_not_fifo rfl⟩
    simp only [devicePop_published, devicePop_mem, wideHistory]
    exact wide_validHead

end Shelter.Virtio
