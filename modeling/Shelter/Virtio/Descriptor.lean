import Shelter.Memory.FlatMemory

/-!
# Descriptor chains

The descriptor table is guest memory, so a chain is whatever the guest wrote there: links may
form cycles or name entries past the table. `DescriptorChain.checkedNew` reads one entry and
checks its link, `nextDescriptor` follows the link while the `ttl` lasts, and `DescIter` is the
iterator that the devices walk a chain with.

`walk_bounded`: a walk ends after at most `queueSize` descriptors, all of them entries of the
table, each after the first named by the link of the one before it.
-/

open Bytes

namespace Shelter.Virtio

open Option

variable {M : Type} [GuestMemory M]

def virtqDescFNext : U16 := 0x1
def virtqDescFWrite : U16 := 0x2

structure Descriptor where
  addr : U64
  len : U32
  flags : U16
  next : U16
  deriving DecidableEq, Repr

def Descriptor.ofBytes (bs : List Byte) : Descriptor where
  addr := BitVec.ofNat 64 (leNat (bs.take 8))
  len := BitVec.ofNat 32 (leNat ((bs.drop 8).take 4))
  flags := BitVec.ofNat 16 (leNat ((bs.drop 12).take 2))
  next := BitVec.ofNat 16 (leNat ((bs.drop 14).take 2))

def Descriptor.toBytes (d : Descriptor) : List Byte :=
  leBytes 8 d.addr.toNat ++ leBytes 4 d.len.toNat ++ leBytes 2 d.flags.toNat ++
    leBytes 2 d.next.toNat

def readDescriptor (m : M) (a : ℕ) : Option Descriptor :=
  (readSlice m a 16).map Descriptor.ofBytes

/-- One descriptor of a chain, with what is needed to follow its link. The memory the code
keeps a reference to is an argument of the functions that read it. -/
structure DescriptorChain where
  descTable : U64
  queueSize : U16
  /-- used to prevent infinite chain cycles -/
  ttl : U16
  index : U16
  addr : U64
  len : U32
  flags : U16
  next : U16
  deriving DecidableEq, Repr

namespace DescriptorChain

variable (c : DescriptorChain)

def hasNext : Bool :=
  c.flags &&& virtqDescFNext != 0 && decide (1 < c.ttl)

def isValid : Bool := !c.hasNext || decide (c.next < c.queueSize)

def isWriteOnly : Bool := c.flags &&& virtqDescFWrite != 0

def isReadOnly : Bool := c.flags &&& virtqDescFWrite == 0

def checkedNew (m : M) (descTable : U64) (queueSize index : U16) : Option DescriptorChain :=
  if queueSize ≤ index then none
  else do
    let descHead ← checkedOffset m descTable.toNat (index.toNat * 16)
    let _ ← checkedOffset m descHead 16
    let desc ← readDescriptor m descHead
    let chain : DescriptorChain :=
      { descTable, queueSize, ttl := queueSize, index, addr := desc.addr, len := desc.len,
        flags := desc.flags, next := desc.next }
    if chain.isValid then some chain else none

/-- The next descriptor of the chain, if there is one. `checkedNew` starts a fresh `ttl`; the
walk goes on with one less than this descriptor's. -/
def nextDescriptor (m : M) : Option DescriptorChain :=
  if c.hasNext then
    (checkedNew m c.descTable c.queueSize c.next).map fun d => { d with ttl := c.ttl - 1 }
  else none

def descriptor : Descriptor where
  addr := c.addr
  len := c.len
  flags := c.flags
  next := c.next

end DescriptorChain

structure DescIter where
  next? : Option DescriptorChain
  deriving DecidableEq, Repr

def DescriptorChain.intoIter (c : DescriptorChain) : DescIter := ⟨some c⟩

namespace DescIter

def next (it : DescIter) (m : M) : Option DescriptorChain × DescIter :=
  match it.next? with
  | some current => (some current, ⟨current.nextDescriptor m⟩)
  | none => (none, it)

/-- The first `n` calls of `next`: the descriptors yielded, and the iterator after them. -/
def drive (m : M) : ℕ → DescIter → List DescriptorChain × DescIter
  | 0, it => ([], it)
  | n + 1, it =>
    match it.next m with
    | (some d, it') => let (ds, it'') := drive m n it'; (d :: ds, it'')
    | (none, it') => ([], it')

/-- All descriptors the iterator yields. The `ttl` bounds their number (`drive_exhausts`). -/
def collect (m : M) (it : DescIter) : List DescriptorChain :=
  match it.next? with
  | some c => (it.drive m (c.ttl.toNat + 1)).1
  | none => []

end DescIter

/-! ## One link -/

namespace DescriptorChain

theorem checkedNew_some {m : M} {table : U64} {size index : U16} {c : DescriptorChain}
    (h : checkedNew m table size index = some c) :
    index < size ∧ c.descTable = table ∧ c.queueSize = size ∧ c.ttl = size ∧ c.index = index ∧
      readDescriptor m (table.toNat + 16 * index.toNat) = some c.descriptor ∧
      c.isValid = true := by
  unfold checkedNew at h
  split_ifs at h with hlt
  simp only [bind_eq_bind, bind_eq_some_iff] at h
  obtain ⟨a, ha, b, _, d, hd, hc⟩ := h
  split_ifs at hc with hv
  obtain rfl := checkedOffset_some ha
  cases hc
  rw [Nat.mul_comm] at hd
  exact ⟨by simpa using hlt, rfl, rfl, rfl, rfl, hd, hv⟩

theorem checkedNew_congr [LawfulGuestMemory M] {m m' : M} {table : U64} {size : U16}
    (hl : SameLayout m m') (h : SameOn table.toNat (16 * size.toNat) m m') (index : U16) :
    checkedNew m' table size index = checkedNew m table size index := by
  unfold checkedNew
  split_ifs with hlt
  · rfl
  · simp only [hl.checkedOffset_eq]
    cases ha : checkedOffset m table.toNat (index.toNat * 16) with
    | none => rfl
    | some a =>
      obtain rfl := checkedOffset_some ha
      have hr : readDescriptor m' (table.toNat + index.toNat * 16) =
          readDescriptor m (table.toNat + index.toNat * 16) := by
        unfold readDescriptor
        rw [LawfulGuestMemory.readSlice_eq (by omega), LawfulGuestMemory.readSlice_eq (by omega),
          bytesAt_congr (h.mono (by omega) (by bv_omega))]
        simp only [hl.mapped_iff]
      simp only [bind_eq_bind, bind_some, hr]

/-- `d` is the table entry that the link of `c` names. -/
structure Linked (m : M) (c d : DescriptorChain) : Prop where
  flag : c.flags &&& virtqDescFNext ≠ 0
  index : d.index = c.next
  table : d.descTable = c.descTable
  size : d.queueSize = c.queueSize
  entry : readDescriptor m (c.descTable.toNat + 16 * c.next.toNat) = some d.descriptor

theorem hasNext_iff (c : DescriptorChain) :
    c.hasNext = true ↔ c.flags &&& virtqDescFNext ≠ 0 ∧ 1 < c.ttl.toNat := by
  unfold hasNext
  simp [BitVec.lt_def]

theorem nextDescriptor_some {m : M} {c d : DescriptorChain} (h : c.nextDescriptor m = some d) :
    Linked m c d ∧ d.index < d.queueSize ∧ 1 < c.ttl.toNat ∧ d.ttl.toNat = c.ttl.toNat - 1 := by
  unfold nextDescriptor at h
  split_ifs at h with hn
  obtain ⟨hf, ht⟩ := (hasNext_iff c).mp hn
  obtain ⟨d', hd', rfl⟩ := map_eq_some_iff.mp h
  obtain ⟨hlt, htab, hsz, _, hidx, hrd, _⟩ := checkedNew_some hd'
  refine ⟨⟨hf, hidx, htab, hsz, hrd⟩, ?_, ht, ?_⟩
  · show d'.index < d'.queueSize
    rw [hidx, hsz]
    exact hlt
  · show (c.ttl - 1).toNat = c.ttl.toNat - 1
    bv_omega

end DescriptorChain

/-! ## The walk -/

namespace DescIter

open DescriptorChain

@[simp] theorem drive_none (m : M) (n : ℕ) : drive m n ⟨none⟩ = ([], ⟨none⟩) := by
  cases n <;> rfl

@[simp] theorem drive_succ (m : M) (n : ℕ) (c : DescriptorChain) : drive m (n + 1) ⟨some c⟩ =
    (c :: (drive m n ⟨c.nextDescriptor m⟩).1, (drive m n ⟨c.nextDescriptor m⟩).2) := rfl

theorem length_drive_le (m : M) (n : ℕ) (it : DescIter) : (drive m n it).1.length ≤ n := by
  induction n generalizing it with
  | zero => exact le_refl 0
  | succ n ih =>
    obtain ⟨_ | c⟩ := it
    · simp
    · rw [drive_succ, List.length_cons]
      exact Nat.succ_le_succ (ih _)

/-- Each step lowers the `ttl`, so `ttl` calls (at least one) exhaust the iterator, cycle or
not. -/
theorem drive_exhausts (m : M) (n : ℕ) (c : DescriptorChain) (h : c.ttl.toNat ≤ n + 1) :
    (drive m (n + 1) c.intoIter).2.next? = none := by
  induction n generalizing c with
  | zero =>
    show (c.nextDescriptor m) = none
    cases hc : c.nextDescriptor m with
    | none => rfl
    | some d =>
      obtain ⟨_, _, ht, _⟩ := nextDescriptor_some hc
      omega
  | succ n ih =>
    show (drive m (n + 1) ⟨c.nextDescriptor m⟩).2.next? = none
    cases hc : c.nextDescriptor m with
    | none => simp
    | some d =>
      obtain ⟨_, _, _, ht⟩ := nextDescriptor_some hc
      exact ih d (by omega)

theorem drive_linked (m : M) (n : ℕ) (c : DescriptorChain) (h : c.index < c.queueSize) :
    (drive m n c.intoIter).1.IsChain (Linked m) ∧
      ∀ d ∈ (drive m n c.intoIter).1, d.index < c.queueSize := by
  induction n generalizing c with
  | zero => exact ⟨List.IsChain.nil, by simp [drive]⟩
  | succ n ih =>
    rw [intoIter, drive_succ]
    cases hc : c.nextDescriptor m with
    | none => simp [h]
    | some d =>
      obtain ⟨hl, hlt, _, _⟩ := nextDescriptor_some hc
      obtain ⟨ih1, ih2⟩ := ih d hlt
      rw [hl.size] at ih2
      refine ⟨?_, ?_⟩
      · cases n with
        | zero => exact List.IsChain.singleton c
        | succ n => exact List.isChain_cons_cons.mpr ⟨hl, ih1⟩
      · intro e he
        rcases List.mem_cons.mp he with rfl | he
        · exact h
        · exact ih2 e he

theorem drive_congr [LawfulGuestMemory M] {m m' : M} (hl : SameLayout m m') (n : ℕ)
    (c : DescriptorChain) (h : SameOn c.descTable.toNat (16 * c.queueSize.toNat) m m') :
    drive m' n c.intoIter = drive m n c.intoIter := by
  induction n generalizing c with
  | zero => rfl
  | succ n ih =>
    have hnext : c.nextDescriptor m' = c.nextDescriptor m := by
      unfold nextDescriptor
      rw [checkedNew_congr hl h]
    rw [intoIter, drive_succ, drive_succ, hnext]
    cases hc : c.nextDescriptor m with
    | none => rw [drive_none, drive_none]
    | some d =>
      obtain ⟨hlink, _⟩ := nextDescriptor_some hc
      have hd := ih d (by rw [hlink.table, hlink.size]; exact h)
      rw [intoIter] at hd
      rw [hd]

theorem collect_congr [LawfulGuestMemory M] {m m' : M} (hl : SameLayout m m')
    {c : DescriptorChain} (h : SameOn c.descTable.toNat (16 * c.queueSize.toNat) m m') :
    c.intoIter.collect m' = c.intoIter.collect m := by
  show (drive m' (c.ttl.toNat + 1) c.intoIter).1 = (drive m (c.ttl.toNat + 1) c.intoIter).1
  rw [drive_congr hl _ c h]

end DescIter

open DescriptorChain in
/-- **Bounded walks.** Whatever the table holds, walking a chain that `checkedNew` accepted
ends within `size` descriptors; they start with the head, all have an index below `size`, and
each after the first is the table entry that the link of the one before it names. -/
theorem walk_bounded (m : M) (table : U64) (size index : U16) (c : DescriptorChain)
    (h : checkedNew m table size index = some c) :
    (c.intoIter.drive m size.toNat).2.next? = none ∧
      (c.intoIter.drive m size.toNat).1.length ≤ size.toNat ∧
      (c.intoIter.drive m size.toNat).1.head? = some c ∧
      (∀ d ∈ (c.intoIter.drive m size.toNat).1, d.index < size) ∧
      (c.intoIter.drive m size.toNat).1.IsChain (Linked m) := by
  obtain ⟨hlt, _, hsz, httl, hidx, _, _⟩ := checkedNew_some h
  obtain ⟨n, hn⟩ : ∃ n, size.toNat = n + 1 := ⟨size.toNat - 1, by bv_omega⟩
  have hlink := DescIter.drive_linked m size.toNat c (by rw [hidx, hsz]; exact hlt)
  refine ⟨?_, DescIter.length_drive_le m _ _, ?_, ?_, hlink.1⟩
  · rw [hn]
    exact DescIter.drive_exhausts m n c (by rw [httl]; omega)
  · rw [hn]; rfl
  · rw [hsz] at hlink
    exact hlink.2

def cyclicTable : FlatMemory :=
  ((FlatMemory.zeroed [⟨0, 64⟩] (by decide)).put 0 (Descriptor.toBytes ⟨0x1000, 8, 1, 1⟩)).put 16
    (Descriptor.toBytes ⟨0x2000, 8, 1, 0⟩)

open DescriptorChain in
/-- The walk around the cycle is cut after the two descriptors of the queue. -/
theorem walk_bounded_cycle :
    checkedNew cyclicTable 0 2 0 = some ⟨0, 2, 2, 0, 0x1000, 8, 1, 1⟩ ∧
      (intoIter ⟨0, 2, 2, 0, 0x1000, 8, 1, 1⟩ |>.drive cyclicTable 2).2.next? = none ∧
      (intoIter ⟨0, 2, 2, 0, 0x1000, 8, 1, 1⟩ |>.drive cyclicTable 2).1.length ≤ 2 :=
  have h : checkedNew cyclicTable 0 2 0 = some ⟨0, 2, 2, 0, 0x1000, 8, 1, 1⟩ := by decide
  have hw := walk_bounded cyclicTable 0 2 0 _ h
  ⟨h, hw.1, hw.2.1⟩

end Shelter.Virtio
