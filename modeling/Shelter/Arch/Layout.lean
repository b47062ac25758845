import Shelter.Memory.GuestMemory

/-!
# The layout of guest RAM

`arch_memory_regions` computes the regions of guest memory from the size of the RAM and from where
the kernel is loaded. RAM stays below the gap that is reserved for the devices, and what does not
fit there goes past the first 4 GiB. Without a TEE a hole is left for the kernel, whose pages are
mapped there from elsewhere; with a TEE the kernel is copied into RAM, and the BIOS has a region of
its own.

All arithmetic is that of 64-bit words, which wraps in a release build. `layout_sound_iff` says for
which sizes the layout without a TEE is as it should be.
-/

namespace Shelter.Arch

open List

def firstAddrPast32bits : U64 := 1 <<< 32
def mem32bitGapSize : U64 := 768 <<< 20
def mmioMemStart : U64 := firstAddrPast32bits - mem32bitGapSize
def biosStart : U64 := 0xffff0000
def biosSize : U64 := 65536

/-- What `sysconf` returns for the page size on x86_64. -/
def pageSize : U64 := 4096

def roundUp (size align : U64) : U64 :=
  let pageMask := align - 1
  (size + pageMask) &&& ~~~pageMask

structure ArchMemoryInfo where
  ramLastAddr : U64
  shmStartAddr : U64
  pageSize : U64
  deriving DecidableEq, Repr

variable (size kernelLoadAddr kernelSize : U64)

/-- The regions, each as an address and a size. `none` is the panic of a kernel that does not fit in
RAM. -/
def archMemoryRegions : Option (ArchMemoryInfo × List (U64 × U64)) :=
  let size := roundUp size pageSize
  if size < kernelLoadAddr + kernelSize then none
  -- `checked_sub` returns `None` or `Some(0)`: guest memory fits before the gap
  else if size ≤ mmioMemStart then
    let ramLastAddr := kernelLoadAddr + kernelSize + size
    some (⟨ramLastAddr, firstAddrPast32bits, pageSize⟩,
      [(0, kernelLoadAddr), (kernelLoadAddr + kernelSize, size)])
  else
    let remaining := size - mmioMemStart
    let ramLastAddr := firstAddrPast32bits + remaining
    some (⟨ramLastAddr, (ramLastAddr / 0x40000000 + 1) * 0x40000000, pageSize⟩,
      [(0, kernelLoadAddr),
        (kernelLoadAddr + kernelSize, mmioMemStart - (kernelLoadAddr + kernelSize)),
        (firstAddrPast32bits, remaining)])

def archMemoryRegionsTee : Option (ArchMemoryInfo × List (U64 × U64)) :=
  let size := roundUp size pageSize
  if size < kernelLoadAddr + kernelSize then none
  else if size ≤ mmioMemStart then
    some (⟨size, 0, pageSize⟩, [(0, size), (biosStart, biosSize)])
  else
    let remaining := size - mmioMemStart
    some (⟨firstAddrPast32bits + remaining, 0, pageSize⟩,
      [(0, mmioMemStart), (biosStart, biosSize), (firstAddrPast32bits, remaining)])

/-! ## Sizes as numbers -/

theorem toNat_mmioMemStart : mmioMemStart.toNat = 0xD0000000 := rfl

theorem toNat_firstAddrPast32bits : firstAddrPast32bits.toNat = 2 ^ 32 := rfl

theorem roundUp_mod (size : U64) : (roundUp size pageSize).toNat % 4096 = 0 := by
  have hand : roundUp size pageSize &&& (4096 - 1) = 0 := by
    show ((size + 4095) &&& ~~~(4095 : U64)) &&& 4095 = 0
    rw [BitVec.and_assoc, BitVec.not_and_self]
    exact BitVec.and_zero
  have hnat := congrArg BitVec.toNat hand
  have hmod := Nat.and_two_pow_sub_one_eq_mod (roundUp size pageSize).toNat 12
  rw [← hmod]
  exact hnat

def region (r : U64 × U64) : Region := ⟨r.1.toNat, r.2.toNat⟩

def InGap (x : ℕ) : Prop := mmioMemStart.toNat ≤ x ∧ x < firstAddrPast32bits.toNat

def Before (r r' : Region) : Prop := r.start + r.len ≤ r'.start

/-- What the layout is for: RAM around the kernel hole, out of the way of the devices, with room for
shared memory after it. `size` is the rounded size of the RAM. -/
structure LayoutSound (size kernelLoadAddr kernelSize : U64) (info : ArchMemoryInfo)
    (regions : List (U64 × U64)) : Prop where
  /-- the hole comes after the first region -/
  increasing : ((regions.take 1).map region ++ region (kernelLoadAddr, kernelSize) ::
    (regions.drop 1).map region).Pairwise Before
  total : size.toNat ≤ (regions.map fun r => r.2.toNat).sum + kernelSize.toNat
  gap : ∀ r ∈ regions, ∀ x, (region r).Contains x → ¬ InGap x
  last : ∀ r ∈ regions, (region r).start + (region r).len ≤ info.ramLastAddr.toNat
  shm : ∀ r ∈ regions, (region r).start + (region r).len ≤ info.shmStartAddr.toNat
  shmGap : firstAddrPast32bits.toNat ≤ info.shmStartAddr.toNat

variable (size kernelLoadAddr kernelSize : ℕ)

/-- RAM below the gap ends before it, also where the kernel has moved it up; else the kernel ends
before the gap, and the address space has room for the shared memory. -/
def LayoutFits : Prop :=
  (size ≤ 0xD0000000 ∧ kernelLoadAddr + kernelSize + size ≤ 0xD0000000) ∨
  (0xD0000000 < size ∧ kernelLoadAddr + kernelSize ≤ 0xD0000000 ∧
    size + 0x30000000 < 2 ^ 64 - 2 ^ 30)
  deriving Decidable

theorem out_of_gap_iff (r : U64 × U64) :
    (∀ x, (region r).Contains x → ¬ InGap x) ↔
      r.2.toNat = 0 ∨ r.1.toNat + r.2.toNat ≤ 0xD0000000 ∨ 2 ^ 32 ≤ r.1.toNat := by
  unfold Region.Contains InGap region
  rw [toNat_mmioMemStart, toNat_firstAddrPast32bits]
  constructor
  · intro h
    by_contra hover
    -- the first address of the region that is not before the gap
    exact h (max r.1.toNat 0xD0000000) ⟨le_max_left _ _, by simp only; omega⟩
      ⟨le_max_right _ _, by omega⟩
  · intro h x hx hgap
    simp only at hx
    omega

section Cases

variable {size kernelLoadAddr kernelSize : U64}

theorem LayoutSound.hole_le {info : ArchMemoryInfo} {r r' : U64 × U64} {rs : List (U64 × U64)}
    (h : LayoutSound size kernelLoadAddr kernelSize info (r :: r' :: rs)) :
    kernelLoadAddr.toNat + kernelSize.toNat ≤ r'.1.toNat :=
  (pairwise_cons.mp (pairwise_cons.mp h.increasing).2).1 (region r') (by simp)

theorem layoutSound_low (hsize : size.toNat ≤ 0xD0000000)
    (hkernel : (kernelLoadAddr + kernelSize).toNat ≤ size.toNat) :
    LayoutSound size kernelLoadAddr kernelSize
        ⟨kernelLoadAddr + kernelSize + size, firstAddrPast32bits, pageSize⟩
        [(0, kernelLoadAddr), (kernelLoadAddr + kernelSize, size)] ↔
      kernelLoadAddr.toNat + kernelSize.toNat + size.toNat ≤ 0xD0000000 := by
  have hend := BitVec.toNat_add kernelLoadAddr kernelSize
  have hlast := BitVec.toNat_add (kernelLoadAddr + kernelSize) size
  have hzero : (0 : U64).toNat = 0 := rfl
  have hhigh := toNat_firstAddrPast32bits
  constructor
  · intro h
    have hafter := h.hole_le
    have hgap := (out_of_gap_iff _).mp (h.gap (kernelLoadAddr + kernelSize, size) (by simp))
    simp only at hafter hgap
    omega
  · intro h
    refine ⟨?_, ?_, ?_, ?_, ?_, le_refl _⟩
    · simp [Before, region]
      omega
    · simp only [List.map, sum_cons, sum_nil]
      omega
    · simp only [forall_mem_cons, out_of_gap_iff]
      exact ⟨by omega, by omega, forall_mem_nil _⟩
    all_goals
      simp only [forall_mem_cons, region]
      exact ⟨by omega, by omega, forall_mem_nil _⟩

theorem layoutSound_high (hsize : 0xD0000000 < size.toNat) :
    LayoutSound size kernelLoadAddr kernelSize
        ⟨firstAddrPast32bits + (size - mmioMemStart),
          ((firstAddrPast32bits + (size - mmioMemStart)) / 0x40000000 + 1) * 0x40000000, pageSize⟩
        [(0, kernelLoadAddr),
          (kernelLoadAddr + kernelSize, mmioMemStart - (kernelLoadAddr + kernelSize)),
          (firstAddrPast32bits, size - mmioMemStart)] ↔
      kernelLoadAddr.toNat + kernelSize.toNat ≤ 0xD0000000 ∧
        size.toNat + 0x30000000 < 2 ^ 64 - 2 ^ 30 := by
  have hend := BitVec.toNat_add kernelLoadAddr kernelSize
  have hlow := BitVec.toNat_sub mmioMemStart (kernelLoadAddr + kernelSize)
  have hrem := BitVec.toNat_sub size mmioMemStart
  have hlast := BitVec.toNat_add firstAddrPast32bits (size - mmioMemStart)
  have hgib : (0x40000000 : U64).toNat = 0x40000000 := rfl
  have hone : (1 : U64).toNat = 1 := rfl
  have hshm := BitVec.toNat_mul ((firstAddrPast32bits + (size - mmioMemStart)) / 0x40000000 + 1)
    0x40000000
  rw [BitVec.toNat_add, BitVec.toNat_udiv, hgib, hone] at hshm
  have hzero : (0 : U64).toNat = 0 := rfl
  rw [toNat_mmioMemStart] at hlow hrem
  have hhigh := toNat_firstAddrPast32bits
  generalize ((firstAddrPast32bits + (size - mmioMemStart)) / 0x40000000 + 1) * 0x40000000 = shm
    at *
  constructor
  · intro h
    have hafter : _ ≤ (kernelLoadAddr + kernelSize).toNat := h.hole_le
    have hbelow : (kernelLoadAddr + kernelSize).toNat +
        (mmioMemStart - (kernelLoadAddr + kernelSize)).toNat ≤ firstAddrPast32bits.toNat :=
      (pairwise_cons.mp (pairwise_cons.mp (pairwise_cons.mp h.increasing).2).2).1 _ (.head _)
    have htop : firstAddrPast32bits.toNat + (size - mmioMemStart).toNat ≤ shm.toNat :=
      h.shm (firstAddrPast32bits, size - mmioMemStart) (by simp)
    have htop' : firstAddrPast32bits.toNat + (size - mmioMemStart).toNat ≤
        (firstAddrPast32bits + (size - mmioMemStart)).toNat :=
      h.last (firstAddrPast32bits, size - mmioMemStart) (by simp)
    omega
  · intro h
    have hk : (kernelLoadAddr + kernelSize).toNat = kernelLoadAddr.toNat + kernelSize.toNat := by
      omega
    have hl : (mmioMemStart - (kernelLoadAddr + kernelSize)).toNat =
        0xD0000000 - (kernelLoadAddr.toNat + kernelSize.toNat) := by omega
    have hr : (size - mmioMemStart).toNat = size.toNat - 0xD0000000 := by omega
    refine ⟨?_, ?_, ?_, ?_, ?_, show _ ≤ shm.toNat by omega⟩
    · simp only [List.take, List.drop, List.map, cons_append, nil_append,
        pairwise_cons, forall_mem_cons, Before, region, hk, hl, hr, hhigh, hzero]
      simp
      omega
    · rw [map_cons, map_cons, map_cons, map_nil, sum_cons, sum_cons,
        sum_cons, sum_nil, hl, hr]
      dsimp only
      omega
    · simp only [forall_mem_cons, out_of_gap_iff]
      exact ⟨by omega, by omega, by omega, forall_mem_nil _⟩
    all_goals
      simp only [forall_mem_cons, region]
      exact ⟨by omega, by omega, by omega, forall_mem_nil _⟩

/-- **The layout of guest RAM.** The regions lie around the kernel hole, in order and out of the gap
of the devices, with the shared memory after them, exactly if the RAM that fits before the gap still
does when it is moved up by the kernel, and the kernel of a larger RAM ends before the gap. -/
theorem layout_sound_iff {info : ArchMemoryInfo} {regions : List (U64 × U64)}
    (h : archMemoryRegions size kernelLoadAddr kernelSize = some (info, regions)) :
    LayoutSound (roundUp size pageSize) kernelLoadAddr kernelSize info regions ↔
      LayoutFits (roundUp size pageSize).toNat kernelLoadAddr.toNat kernelSize.toNat := by
  unfold archMemoryRegions at h
  dsimp only at h
  unfold LayoutFits
  split_ifs at h with hkernel hlow
  · -- the RAM fits before the gap
    cases h
    rw [BitVec.le_def, toNat_mmioMemStart] at hlow
    rw [BitVec.lt_def, not_lt] at hkernel
    rw [layoutSound_low hlow hkernel]
    omega
  · cases h
    rw [BitVec.le_def, toNat_mmioMemStart, not_le] at hlow
    rw [layoutSound_high hlow]
    omega

/-- 512 MiB of RAM with the kernel at 16 MiB. -/
theorem layout_sound_512MiB :
    ∃ info regions, archMemoryRegions (1 <<< 29) 0x1000000 0x1E00000 = some (info, regions) ∧
      LayoutSound (1 <<< 29) 0x1000000 0x1E00000 info regions := by
  have h : archMemoryRegions (1 <<< 29) 0x1000000 0x1E00000 =
      some (⟨0x22E00000, 0x100000000, 4096⟩, [(0, 0x1000000), (0x2E00000, 0x20000000)]) := by
    decide +kernel
  exact ⟨_, _, h, (layout_sound_iff h).mpr (by decide +kernel)⟩

/-- RAM that just fits before the gap is moved into the gap by the kernel, and a kernel that ends in
the gap makes the length of its region wrap. -/
theorem layout_overlaps_gap :
    (∃ info regions, archMemoryRegions 0xD0000000 0x1000000 0x1E00000 = some (info, regions) ∧
      ¬ LayoutSound (roundUp 0xD0000000 pageSize) 0x1000000 0x1E00000 info regions) ∧
    ∃ info regions, archMemoryRegions 0xE0000000 0xCF000000 0x2000000 = some (info, regions) ∧
      ¬ LayoutSound (roundUp 0xE0000000 pageSize) 0xCF000000 0x2000000 info regions := by
  refine ⟨⟨_, _, rfl, fun h => ?_⟩, _, _, rfl, fun h => ?_⟩
  · have := (layoutSound_low (by decide +kernel) (by decide +kernel)).mp h
    revert this
    decide +kernel
  · have := (layoutSound_high (by decide +kernel)).mp h
    revert this
    decide +kernel

end Cases

end Shelter.Arch
