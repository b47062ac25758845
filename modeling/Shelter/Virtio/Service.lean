import Shelter.Virtio.Queue

/-!
# The chains of a queue, one after the other

A device pops and handles chains until `pop` returns none, which it also does at a head that
`checkedNew` rejects. `After` says where it is while nobody else writes to the available ring and
the descriptor table.
-/

open Bytes

namespace Shelter.Virtio

open DescriptorChain

variable {M D : Type} [GuestMemory M]

/-- A queue with its memory, and the state of the device that serves it. -/
structure ServiceState (M D : Type) where
  queue : Queue
  mem : M
  dev : D

/-! ## What is pending -/

namespace ServiceState

variable (s : ServiceState M D)

def pending : ℕ := (s.queue.availIdxField s.mem - s.queue.nextAvail).toNat

/-- The queue when `k` more chains are popped. -/
def queueAfter (k : ℕ) : Queue :=
  { s.queue with nextAvail := s.queue.nextAvail + BitVec.ofNat 16 k }

/-- The chain that `pop` makes of the pending entry `k`, if it accepts it. -/
def chainAt (k : ℕ) : Option DescriptorChain :=
  if s.queue.actualSize = 0 then none
  else checkedNew s.mem s.queue.descTable s.queue.actualSize
    ((s.queueAfter k).headAt s.mem)

def Accepted : Prop := ∀ k < s.pending, (s.chainAt k).isSome = true

/-- `n` chains can be popped before the queue is empty or a head is rejected. -/
structure Ready (n : ℕ) : Prop where
  le : n ≤ s.pending
  accepted : ∀ k < n, (s.chainAt k).isSome = true
  last : n = s.pending ∨ s.chainAt n = none

/-- The rings can be accessed, and the used ring does not overlap what the driver writes. -/
structure Placed (s : ServiceState M D) : Prop where
  rings : s.queue.RingsMapped s.mem
  apartAvail : Apart s.queue.usedRing.toNat (6 + 8 * s.queue.size.toNat) s.queue.availRing.toNat
    (6 + 2 * s.queue.size.toNat)
  apartTable : Apart s.queue.usedRing.toNat (6 + 8 * s.queue.size.toNat) s.queue.descTable.toNat
    (16 * s.queue.actualSize.toNat)

/-- `t` has the queue of `s`, up to its counters, and the same available ring and table. -/
structure Kept (s t : ServiceState M D) : Prop where
  config : Queue.SameConfig s.queue t.queue
  layout : SameLayout s.mem t.mem
  avail : SameOn s.queue.availRing.toNat (6 + 2 * s.queue.size.toNat) s.mem t.mem
  table : SameOn s.queue.descTable.toNat (16 * s.queue.actualSize.toNat) s.mem t.mem

/-- `k` of the chains pending in `s` have been popped. -/
structure After (s : ServiceState M D) (k : ℕ) (t : ServiceState M D) : Prop where
  kept : Kept s t
  nextAvail : t.queue.nextAvail = s.queue.nextAvail + BitVec.ofNat 16 k
  le : k ≤ s.pending

theorem Kept.refl : Kept s s :=
  ⟨.refl _, .refl _, fun _ _ => rfl, fun _ _ => rfl⟩

theorem After.refl : After s 0 s := ⟨.refl s, by simp, Nat.zero_le _⟩

end ServiceState

/-! ## One turn -/

section Turn

variable {s t : ServiceState M D} {k : ℕ}

namespace ServiceState

theorem After.rings (h : s.After k t) (hs : s.Placed) : t.queue.RingsMapped t.mem :=
  hs.rings.congr h.kept.config h.kept.layout

theorem After.availIdx_eq_iff (h : s.After k t) :
    t.queue.availIdxField t.mem = t.queue.nextAvail ↔ k = s.pending := by
  have hidx : t.queue.availIdxField t.mem = s.queue.availIdxField s.mem :=
    Queue.availIdxField_congr h.kept.config.availRing h.kept.avail
  have hle := h.le
  have hlt : s.pending < 2 ^ 16 := BitVec.isLt _
  rw [hidx, h.nextAvail]
  unfold pending at hle hlt ⊢
  bv_omega

theorem After.headAt_eq (h : s.After k t) (h0 : s.queue.actualSize ≠ 0) :
    t.queue.headAt t.mem = (s.queueAfter k).headAt s.mem := by
  have hoff : t.queue.indexOffset = (s.queueAfter k).indexOffset := by
    unfold Queue.indexOffset
    rw [h.kept.config.actualSize, h.nextAvail]
    rfl
  have hle := (s.queueAfter k).indexOffset_lt h0
  have hsize : (s.queueAfter k).size = s.queue.size := rfl
  unfold Queue.headAt
  rw [hoff, h.kept.config.availRing]
  rw [hsize] at hle
  refine field16_congr (h.kept.avail.mono ?_ ?_)
  · show _ ≤ _
    omega
  · show _ ≤ _
    omega

theorem After.pop_eq [LawfulGuestMemory M] (h : s.After k t) (hs : s.Placed) : t.queue.pop t.mem =
    some (if k = s.pending then (none, t.queue) else match s.chainAt k with
        | none => (none, t.queue)
        | some c => (some c, { t.queue with nextAvail := t.queue.nextAvail + 1 })) := by
  rw [Queue.pop_eq (h.rings hs)]
  simp only [h.availIdx_eq_iff, h.kept.config.actualSize]
  unfold chainAt
  by_cases hk : k = s.pending
  · rw [if_pos (.inl hk), if_pos hk]
  · rw [if_neg hk]
    by_cases h0 : s.queue.actualSize = 0
    · rw [if_pos (.inr h0), if_pos h0]
    · have hc : checkedNew t.mem t.queue.descTable t.queue.actualSize
          (t.queue.headAt t.mem) = checkedNew s.mem s.queue.descTable
            s.queue.actualSize ((s.queueAfter k).headAt s.mem) := by
        rw [h.kept.config.descTable, h.kept.config.actualSize, h.headAt_eq h0]
        exact checkedNew_congr h.kept.layout h.kept.table _
      rw [if_neg (not_or.mpr ⟨hk, h0⟩), if_neg h0]
      unfold Queue.popAt
      rw [hc]
      cases checkedNew s.mem s.queue.descTable s.queue.actualSize
        ((s.queueAfter k).headAt s.mem) <;> rfl

theorem After.pop_ready [LawfulGuestMemory M] (h : s.After k t) (hs : s.Placed) {n : ℕ}
    (hn : s.Ready n) (hk : k ≤ n) : t.queue.pop t.mem =
      some (if k = n then (none, t.queue)
        else (s.chainAt k, { t.queue with nextAvail := t.queue.nextAvail + 1 })) := by
  rw [h.pop_eq hs]
  rcases eq_or_ne k n with rfl | hne
  · rw [if_pos rfl]
    rcases hn.last with hlast | hlast
    · rw [if_pos hlast]
    · rw [hlast]
      split_ifs <;> rfl
  · have hlt : k < n := lt_of_le_of_ne hk hne
    obtain ⟨c, hc⟩ := Option.isSome_iff_exists.mp (hn.accepted k hlt)
    rw [if_neg hne, if_neg (hlt.trans_le hn.le).ne, hc]

theorem After.popped (h : s.After k t) (hk : k ≠ s.pending) :
    s.After (k + 1) { t with queue := { t.queue with nextAvail := t.queue.nextAvail + 1 } } := by
  refine ⟨⟨h.kept.config.trans (.withNextAvail _ _), h.kept.layout, h.kept.avail, h.kept.table⟩, ?_,
    lt_of_le_of_ne h.le hk⟩
  show t.queue.nextAvail + 1 = _
  rw [h.nextAvail, BitVec.ofNat_add, BitVec.add_assoc]
  rfl

theorem After.undone (h : s.After (k + 1) t) : s.After k { t with queue := t.queue.undoPop } := by
  refine ⟨⟨h.kept.config.trans (.withNextAvail _ _), h.kept.layout, h.kept.avail, h.kept.table⟩, ?_,
    Nat.le_of_succ_le h.le⟩
  show t.queue.nextAvail - 1 = _
  rw [h.nextAvail, BitVec.ofNat_add]
  bv_omega

theorem After.requeue (h : s.After k t) {q : Queue} (hq : Queue.SameConfig t.queue q)
    (hn : q.nextAvail = t.queue.nextAvail) : s.After k { t with queue := q } :=
  ⟨⟨h.kept.config.trans hq, h.kept.layout, h.kept.avail, h.kept.table⟩, hn.trans h.nextAvail, h.le⟩

theorem After.withDev (h : s.After k t) (d : D) : s.After k { t with dev := d } :=
  ⟨⟨h.kept.config, h.kept.layout, h.kept.avail, h.kept.table⟩, h.nextAvail, h.le⟩

theorem After.write (h : s.After k t) (hs : s.Placed) {m : M} (hl : SameLayout t.mem m)
    (ho : SameOutside (Range t.queue.usedRing.toNat (6 + 8 * t.queue.size.toNat)) t.mem m) :
    s.After k { t with mem := m } := by
  rw [h.kept.config.usedRing, h.kept.config.size] at ho
  refine ⟨⟨h.kept.config, h.kept.layout.trans hl, ?_, ?_⟩, h.nextAvail, h.le⟩
  · exact h.kept.avail.trans (ho.sameOn hs.apartAvail)
  · exact h.kept.table.trans (ho.sameOn hs.apartTable)

variable [LawfulGuestMemory M]

theorem After.enable (h : s.After k t) (hs : s.Placed) :
    ∃ m, t.queue.enableNotification t.mem = (.ok (decide (k ≠ s.pending)), m) ∧
      s.After k { t with mem := m } := by
  obtain ⟨m, hm, hl, ho⟩ := Queue.setNotification_ok (h.rings hs) true
  have h' := h.write hs hl ho
  have hmore : t.queue.moreAvailable m = .ok (decide (k ≠ s.pending)) := by
    rw [Queue.moreAvailable_eq (h'.rings hs), bne, beq_eq_decide]
    simp only [h'.availIdx_eq_iff, decide_not]
  refine ⟨m, ?_, h'⟩
  unfold Queue.enableNotification
  simp only [hm, hmore]

theorem collect_after {c : DescriptorChain} {j : ℕ} (hc : s.chainAt k = some c) (h : s.After j t) :
    c.intoIter.collect t.mem = c.intoIter.collect s.mem := by
  unfold chainAt at hc
  split_ifs at hc
  obtain ⟨_, htab, hsize, _⟩ := DescriptorChain.checkedNew_some hc
  refine DescIter.collect_congr h.kept.layout ?_
  rw [htab, hsize]
  exact h.kept.table

end ServiceState

end Turn

end Shelter.Virtio
