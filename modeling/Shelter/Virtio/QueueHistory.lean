import Shelter.Lib.Ring
import Shelter.Virtio.Queue

/-!
# Histories of a queue

A driver publishes descriptor chains in the available ring, the device pops them and hands them
back in the used ring. `Step` interleaves the two: the driver writes ring entries that are free
and stores the index, the device calls `pop`, `undoPop` and `addUsed`. A `History` carries,
beside the queue and the memory, what has happened so far.

`Inv` relates the unbounded histories to the rings and to the 16-bit counters. Under it `pop`
looks at the next published head (`Inv.pop_next`), and returns nothing once all have been popped
(`Inv.pop_empty`).
-/

open Bytes Ring

namespace Shelter.Virtio

open Queue List

variable {M : Type} [GuestMemory M] (q : Queue)

namespace Queue

def ValidHead (m : M) (h : U16) : Prop :=
  (DescriptorChain.checkedNew m q.descTable q.actualSize h).isSome
  deriving Decidable

end Queue

/-- A queue with the memory its rings lie in, and what driver and device have done with it. -/
structure History (M : Type) where
  queue : Queue
  mem : M
  /-- the heads the driver has published -/
  published : List U16
  /-- the heads `pop` has returned, without those that were undone -/
  popped : List U16
  /-- the last call of the device was a `pop` that returned a chain -/
  undoable : Bool
  /-- the accepted calls of `addUsed` -/
  used : List (U16 × U32)
  /-- how many chains the device has handed back -/
  returned : ℕ

namespace History

def start (m : M) : History M := ⟨q, m, [], [], false, [], 0⟩

def kept (s : History M) : ℕ := s.popped.length - if s.undoable then 1 else 0

end History

/-- The driver publishes the heads `hs`, possibly none, and may write elsewhere. It fills only
ring entries it has not published and that leave at most `size` chains outstanding, and it does
not touch the used ring. -/
structure DriverWrites (s : History M) (hs : List U16) (m' : M) : Prop where
  layout : SameLayout s.mem m'
  used : SameOn s.queue.usedRing.toNat (6 + 8 * s.queue.size.toNat) s.mem m'
  cells : ∀ i < s.queue.size.toNat, s.queue.availCell m' i ≠ s.queue.availCell s.mem i →
    ∃ k, s.published.length ≤ k ∧ k < s.returned + s.queue.size.toNat ∧
      i = slot s.queue.size.toNat k
  fill : ∀ j (h : j < hs.length),
    s.queue.availCell m' (slot s.queue.size.toNat (s.published.length + j)) = hs.get ⟨j, h⟩
  idx : s.queue.availIdxField m' = BitVec.ofNat 16 (s.published.length + hs.length)
  room : s.published.length + hs.length ≤ s.returned + s.queue.size.toNat

/-- One step of the driver or one call of the device. -/
inductive Step : History M → History M → Prop
  | driver {s : History M} (hs : List U16) (m' : M) : DriverWrites s hs m' →
    Step s { s with mem := m', published := s.published ++ hs }
  | pop {s : History M} (c : DescriptorChain) (q' : Queue) :
    s.queue.pop s.mem = some (some c, q') →
    Step s { s with queue := q', popped := s.popped ++ [c.index], undoable := true }
  | popEmpty {s : History M} (q' : Queue) : s.queue.pop s.mem = some (none, q') →
    Step s { s with queue := q', undoable := false }
  | undoPop {s : History M} : s.undoable = true →
    Step s { s with
      queue := s.queue.undoPop, popped := s.popped.dropLast, undoable := false }
  | addUsed {s : History M} (id : U16) (len : U32) (q' : Queue) (m' : M) :
    s.queue.addUsed s.mem id len = (.ok (), q', m') →
    Step s { s with
      queue := q', mem := m', undoable := false, used := s.used ++ [(id, len)],
      returned := min (s.returned + 1) s.popped.length }
  | addUsedFailed {s : History M} (id : U16) (len : U32) (e : QueueError) (q' : Queue) (m' : M) :
    s.queue.addUsed s.mem id len = (.error e, q', m') →
    Step s { s with queue := q', mem := m', undoable := false }

/-- What the configuration of the queue has to satisfy. -/
structure Configured (q : Queue) (m : M) : Prop where
  sizeValid : q.sizeValid = true
  small : q.size.toNat ≤ 2 ^ 14
  rings : q.RingsMapped m
  apartAvail : Apart q.usedRing.toNat (6 + 8 * q.size.toNat)
    q.availRing.toNat (6 + 2 * q.size.toNat)

/-- A fresh queue over rings that the driver has zeroed. -/
structure Fresh (q : Queue) (m : M) : Prop where
  nextAvail : q.nextAvail = 0
  nextUsed : q.nextUsed = 0
  availIdx : q.availIdxField m = 0
  usedIdx : q.usedIdxField m = 0

def Reachable (m : M) (s : History M) : Prop :=
  Relation.ReflTransGen Step (History.start q m) s

/-! ## The configuration -/

namespace Queue

/-- A size that `is_valid` accepts is a power of two, so it divides the range of the counters. -/
theorem sizeValid_dvd {q : Queue} (h : q.sizeValid = true) : q.size.toNat ∣ 2 ^ 16 := by
  obtain ⟨_, h0, hand⟩ := (sizeValid_iff q).mp h
  have hne : q.size.toNat ≠ 0 := by bv_omega
  have hsub : (q.size - 1).toNat = q.size.toNat - 1 := by bv_omega
  have hnat : q.size.toNat &&& (q.size.toNat - 1) = 0 := by
    rw [← hsub, ← BitVec.toNat_and, hand]; rfl
  obtain ⟨k, hk⟩ := (Nat.and_sub_one_eq_zero_iff_isPowerOfTwo hne).mp hnat
  have hlt : 2 ^ k < 2 ^ 16 := by rw [← hk]; exact q.size.isLt
  rw [hk]
  exact Nat.pow_dvd_pow 2 ((Nat.pow_lt_pow_iff_right (by norm_num)).mp hlt).le

theorem sizeValid_pos {q : Queue} (h : q.sizeValid = true) : 0 < q.size.toNat := by
  have := ((sizeValid_iff q).mp h).2.1
  bv_omega

end Queue

theorem Configured.congr {q q' : Queue} {m m' : M} (h : Configured q m)
    (hq : Queue.SameConfig q q') (hm : SameLayout m m') : Configured q' m' where
  sizeValid := by
    have := h.sizeValid
    unfold Queue.sizeValid at *
    rwa [hq.size, hq.maxSize]
  small := by rw [hq.size]; exact h.small
  rings := h.rings.congr hq hm
  apartAvail := by rw [hq.usedRing, hq.availRing, hq.size]; exact h.apartAvail

/-! ## The invariant -/

def usedElem (c : U16 × U32) : VirtqUsedElem := ⟨c.1.setWidth 32, c.2⟩

/-- The histories against the rings and the counters. -/
structure Inv (s : History M) : Prop where
  configured : Configured s.queue s.mem
  popped_prefix : s.popped <+: s.published
  nextAvail : s.queue.nextAvail = BitVec.ofNat 16 s.popped.length
  nextUsed : s.queue.nextUsed = BitVec.ofNat 16 s.used.length
  availIdx : s.queue.availIdxField s.mem = BitVec.ofNat 16 s.published.length
  usedIdx : s.queue.usedIdxField s.mem = BitVec.ofNat 16 s.used.length
  room : s.published.length ≤ s.returned + s.queue.size.toNat
  returned_le : s.returned ≤ s.kept
  undoable_pos : s.undoable = true → 0 < s.popped.length
  availCells : Holds (s.queue.availCell s.mem) s.queue.size.toNat s.published s.kept
  usedCells : Holds (s.queue.usedCell s.mem) s.queue.size.toNat (s.used.map usedElem)
    (s.used.length - s.queue.size.toNat)

omit [GuestMemory M] in
theorem History.kept_le (s : History M) : s.kept ≤ s.popped.length := Nat.sub_le _ _

theorem inv_start {q : Queue} {m : M} (hc : Configured q m) (hf : Fresh q m) :
    Inv (History.start q m) where
  __ := hf
  configured := hc
  popped_prefix := prefix_refl []
  room := Nat.zero_le _
  returned_le := Nat.zero_le _
  undoable_pos := by simp [History.start]
  availCells := Holds.nil _ _ _
  usedCells := Holds.nil _ _ _

/-- The driver fills only cells of entries it has not published, and those are less than a
round ahead of every entry the device may still read. -/
theorem inv_driver {s : History M} {hs : List U16} {m' : M} (h : Inv s) (hd : DriverWrites s hs m')
    : Inv { s with mem := m', published := s.published ++ hs } where
  __ := h
  configured := h.configured.congr (Queue.SameConfig.refl _) hd.layout
  popped_prefix := h.popped_prefix.trans (prefix_append _ _)
  availIdx := by rw [length_append]; exact hd.idx
  usedIdx := (usedIdxField_congr rfl hd.used).trans h.usedIdx
  room := by rw [length_append]; exact hd.room
  availCells := by
    intro k hk hlt
    have hk : s.kept ≤ k := hk
    by_cases hkp : k < s.published.length
    · have hsame : s.queue.availCell m' (slot s.queue.size.toNat k) =
          s.queue.availCell s.mem (slot s.queue.size.toNat k) := by
        by_contra hne
        have hs := slot_lt (sizeValid_pos h.configured.sizeValid) k
        obtain ⟨k', h1, h2, h3⟩ := hd.cells _ hs hne
        have := h.returned_le
        exact slot_ne (show k < k' by omega) (by omega) h3
      show s.queue.availCell m' _ = _
      rw [hsame, h.availCells k hk hkp]
      simp [getElem_append_left hkp]
    · have hj : k - s.published.length < hs.length := by
        rw [length_append] at hlt; omega
      have hfill := hd.fill (k - s.published.length) hj
      rw [Nat.add_sub_cancel' (by omega)] at hfill
      show s.queue.availCell m' _ = _
      rw [hfill]
      simp [getElem_append_right (show s.published.length ≤ k by omega)]
  usedCells := h.usedCells.congr (sizeValid_pos h.configured.sizeValid)
    fun i hi => usedCell_congr rfl hd.used hi

section Pop

variable {s : History M}

theorem Inv.popped_le (h : Inv s) : s.popped.length ≤ s.published.length :=
  h.popped_prefix.length_le

theorem Inv.idx_eq_iff (h : Inv s) : s.queue.availIdxField s.mem = s.queue.nextAvail ↔
    s.published.length = s.popped.length := by
  rw [h.availIdx, h.nextAvail]
  have h1 := h.popped_le
  have h2 := h.room
  have h3 := h.returned_le
  have h4 := s.kept_le
  exact ofNat_eq_iff h1 (by omega)

theorem Inv.headAt_eq (h : Inv s) : s.queue.headAt s.mem = s.queue.availCell s.mem
    (slot s.queue.size.toNat s.popped.length) := by
  have hs := h.configured.sizeValid
  have hsmall := h.configured.small
  have hslot : (s.queue.nextAvail % s.queue.actualSize).toNat =
      slot s.queue.size.toNat s.popped.length := by
    rw [sizeValid_actualSize hs, h.nextAvail]
    exact toNat_ofNat_umod (sizeValid_dvd hs) _
  have hlt := slot_lt (sizeValid_pos hs) s.popped.length
  have hoff : s.queue.indexOffset.toNat =
      4 + 2 * slot s.queue.size.toNat s.popped.length := by
    unfold Queue.indexOffset
    generalize s.queue.nextAvail % s.queue.actualSize = x at *
    bv_omega
  unfold Queue.headAt Queue.availCell
  rw [hoff]

theorem Inv.actualSize_ne (h : Inv s) : s.queue.actualSize ≠ 0 := by
  rw [sizeValid_actualSize h.configured.sizeValid]
  exact ((sizeValid_iff _).mp h.configured.sizeValid).2.1

variable [LawfulGuestMemory M]

/-- While something is published and not popped, `pop` looks at the first such head. -/
theorem Inv.pop_next (h : Inv s) (hlt : s.popped.length < s.published.length) : s.queue.pop s.mem =
    some (s.queue.popAt s.mem (s.published.get ⟨s.popped.length, hlt⟩)) := by
  have hcell := h.availCells s.popped.length s.kept_le hlt
  have hne : ¬ (s.queue.availIdxField s.mem = s.queue.nextAvail ∨ s.queue.actualSize = 0) := by
    rintro (he | he)
    · have := h.idx_eq_iff.mp he; omega
    · exact h.actualSize_ne he
  rw [pop_eq h.configured.rings, if_neg hne, h.headAt_eq.trans hcell]

theorem Inv.pop_empty (h : Inv s) (he : s.popped.length = s.published.length) :
    s.queue.pop s.mem = some (none, s.queue) := by
  rw [pop_eq h.configured.rings]
  exact if_pos (.inl (h.idx_eq_iff.mpr he.symm))

end Pop

end Shelter.Virtio
