import Shelter.Arch.Layout
import Shelter.Lib.Run

/-!
# Regions for shared memory

`ShmManager` hands out guest addresses past the RAM, one region after the other. The size that is
asked for is rounded up to whole pages, in 64 bits, before the end of the region is checked.
-/

namespace Shelter.Vmm

open Arch

structure ShmRegion where
  guestAddr : U64
  size : U64
  deriving DecidableEq, Repr

inductive ShmError
  | duplicatedGpuRegion
  | outOfSpace
  deriving DecidableEq, Repr

structure ShmManager where
  nextGuestAddr : U64
  pageSize : U64
  fsRegions : U64 → Option ShmRegion
  gpuRegion : Option ShmRegion

inductive ShmRequest
  | fs (index size : U64)
  | gpu (size : U64)
  deriving DecidableEq, Repr

def ShmRequest.size : ShmRequest → U64
  | fs _ size | gpu size => size

namespace ShmManager

def new (info : ArchMemoryInfo) : ShmManager where
  nextGuestAddr := info.shmStartAddr
  pageSize := info.pageSize
  fsRegions := fun _ => none
  gpuRegion := none

def createRegion (s : ShmManager) (size : U64) : Except ShmError ShmRegion × ShmManager :=
  let size := roundUp size s.pageSize
  if s.nextGuestAddr.toNat + size.toNat < 2 ^ 64 then
    (.ok ⟨s.nextGuestAddr, size⟩, { s with nextGuestAddr := s.nextGuestAddr + size })
  else (.error .outOfSpace, s)

def createGpuRegion (s : ShmManager) (size : U64) : Except ShmError Unit × ShmManager :=
  if s.gpuRegion.isSome then (.error .duplicatedGpuRegion, s)
  else
    match s.createRegion size with
    | (.ok region, s') => (.ok (), { s' with gpuRegion := some region })
    | (.error e, s') => (.error e, s')

def createFsRegion (s : ShmManager) (index size : U64) : Except ShmError Unit × ShmManager :=
  match s.createRegion size with
  | (.ok region, s') =>
    (.ok (), { s' with fsRegions := Function.update s'.fsRegions index (some region) })
  | (.error e, s') => (.error e, s')

def create (s : ShmManager) : ShmRequest → Except ShmError Unit × ShmManager
  | .fs index size => s.createFsRegion index size
  | .gpu size => s.createGpuRegion size

def region (s : ShmManager) : ShmRequest → Option ShmRegion
  | .fs index _ => s.fsRegions index
  | .gpu _ => s.gpuRegion

/-- What is granted for a list of requests: each size that was asked for, and the region. -/
def granted (s : ShmManager) : List ShmRequest → List (U64 × ShmRegion)
  | [] => []
  | r :: rs =>
    match s.create r with
    | (.ok _, s') => ((s'.region r).map (r.size, ·)).toList ++ s'.granted rs
    | (.error _, s') => s'.granted rs

variable {s : ShmManager}

theorem create_cases (s : ShmManager) (r : ShmRequest) :
    (∃ e, s.create r = (.error e, s)) ∨
      ∃ s', s.create r = (.ok (), s') ∧
        s'.region r = some ⟨s.nextGuestAddr, roundUp r.size s.pageSize⟩ ∧
        s.nextGuestAddr.toNat + (roundUp r.size s.pageSize).toNat = s'.nextGuestAddr.toNat ∧
        s'.pageSize = s.pageSize := by
  have hnext : ∀ {size : U64}, s.nextGuestAddr.toNat + size.toNat < 2 ^ 64 →
      s.nextGuestAddr.toNat + size.toNat = (s.nextGuestAddr + size).toNat := by
    intro size h
    bv_omega
  cases r with
  | fs index size =>
    unfold create createFsRegion createRegion
    dsimp only
    split_ifs with hfits
    · exact .inr ⟨_, rfl, Function.update_self .., hnext hfits, rfl⟩
    · exact .inl ⟨_, rfl⟩
  | gpu size =>
    unfold create createGpuRegion createRegion
    dsimp only
    split_ifs with hgpu hfits
    · exact .inl ⟨_, rfl⟩
    · exact .inr ⟨_, rfl, rfl, hnext hfits, rfl⟩
    · exact .inl ⟨_, rfl⟩

theorem and_not_add_and (v mask : U64) : (v &&& ~~~mask) + (v &&& mask) = v := by
  rw [BitVec.add_eq_or_of_and_eq_zero]
  · ext i hi
    simp only [BitVec.getElem_or, BitVec.getElem_and, BitVec.getElem_not]
    cases v[i] <;> cases mask[i] <;> rfl
  · ext i hi
    simp only [BitVec.getElem_and, BitVec.getElem_not]
    cases v[i] <;> cases mask[i] <;> simp

theorem le_roundUp_iff (size : U64) :
    size.toNat ≤ (roundUp size Arch.pageSize).toNat ↔ size.toNat ≤ 2 ^ 64 - 4096 := by
  have hsum := congrArg BitVec.toNat (and_not_add_and (size + 4095) 4095)
  have hrest : (size + 4095 &&& 4095).toNat ≤ 4095 := Nat.and_le_right
  have hle : (size + 4095 &&& ~~~4095).toNat ≤ (size + 4095).toNat := Nat.and_le_left
  have hmod := roundUp_mod size
  rw [show roundUp size Arch.pageSize = size + 4095 &&& ~~~4095 from rfl] at hmod ⊢
  rw [BitVec.toNat_add] at hsum
  bv_omega

theorem roundUp_eq_zero {size : U64} (h : 2 ^ 64 - 4096 < size.toNat) :
    roundUp size Arch.pageSize = 0 := by
  have hle : (size + 4095 &&& ~~~4095).toNat ≤ (size + 4095).toNat := Nat.and_le_left
  have hmod := roundUp_mod size
  rw [show roundUp size Arch.pageSize = size + 4095 &&& ~~~4095 from rfl] at hmod ⊢
  bv_omega

def Paged (s : ShmManager) : Prop := s.pageSize = Arch.pageSize ∧ s.nextGuestAddr.toNat % 4096 = 0

/-- There is one region for the GPU, so that a second request is refused whatever its size. -/
def refusesGpu (s : ShmManager) : ShmRequest → Bool
  | .gpu _ => s.gpuRegion.isSome
  | .fs .. => false

/-- The request does not have a size of the last page, or that does not matter any more. -/
def Sized (s : ShmManager) (r : ShmRequest) : Prop :=
  r.size.toNat ≤ 2 ^ 64 - 4096 ∨ s.refusesGpu r = true

instance (s : ShmManager) (r : ShmRequest) : Decidable (s.Sized r) :=
  inferInstanceAs (Decidable (_ ∨ _))

def step (s : ShmManager) (r : ShmRequest) : Option ShmManager := some (s.create r).2

theorem sized_of_refused {r : ShmRequest} {e : ShmError} (h : s.Paged)
    (hr : s.create r = (.error e, s)) : s.Sized r := by
  by_contra hsized
  rw [Sized, not_or, not_le] at hsized
  obtain ⟨region, s', hok⟩ : ∃ region s', s.createRegion r.size = (.ok region, s') := by
    -- the size is rounded to 0, for which there is always room
    rw [createRegion, h.1, roundUp_eq_zero hsized.1]
    exact ⟨_, _, if_pos s.nextGuestAddr.isLt⟩
  cases r with
  | fs index size =>
    rw [ShmRequest.size] at hok
    simp [create, createFsRegion, hok] at hr
  | gpu size =>
    rw [ShmRequest.size] at hok
    simp only [refusesGpu, Bool.not_eq_true] at hsized
    simp [create, createGpuRegion, hsized.2, hok] at hr

theorem not_refusesGpu {s' : ShmManager} {r : ShmRequest} (hr : s.create r = (.ok (), s')) :
    s.refusesGpu r = false := by
  cases r with
  | fs => rfl
  | gpu size =>
    rw [refusesGpu, ← Bool.not_eq_true]
    intro hgpu
    simp [create, createGpuRegion, hgpu] at hr

/-- The regions are long enough exactly if each request has a size that can be rounded up. -/
theorem granted_long_iff (h : s.Paged) (rs : List ShmRequest) :
    (∀ g ∈ s.granted rs, g.1.toNat ≤ g.2.size.toNat) ↔ Run.Along step Sized s rs := by
  induction rs generalizing s with
  | nil => exact iff_of_true nofun trivial
  | cons r rs ih =>
    have hstep : step s r = some (s.create r).2 := rfl
    unfold granted Run.Along
    obtain ⟨e, hr⟩ | ⟨s', hr, hregion, hnext, hpage⟩ := create_cases s r
    · simp only [hstep, hr, Option.some.injEq, forall_eq', sized_of_refused h hr, true_and]
      exact ih h
    · simp only [hstep, hr, hregion, Option.some.injEq, forall_eq']
      have hmod := roundUp_mod r.size
      rw [h.1] at hnext hpage ⊢
      rw [← ih ⟨hpage, by have := h.2; omega⟩, Sized, not_refusesGpu hr]
      simp only [Option.map_some, Option.toList_some, List.singleton_append, List.forall_mem_cons,
        le_roundUp_iff, Bool.false_eq_true, or_false]

theorem granted_spec (h : s.Paged) (rs : List ShmRequest) :
    (∀ g ∈ s.granted rs, g.2.guestAddr.toNat % 4096 = 0 ∧ g.2.size = roundUp g.1 Arch.pageSize ∧
      s.nextGuestAddr.toNat ≤ g.2.guestAddr.toNat) ∧
    (s.granted rs).Pairwise fun g g' =>
      g.2.guestAddr.toNat + g.2.size.toNat ≤ g'.2.guestAddr.toNat := by
  induction rs generalizing s with
  | nil => exact ⟨nofun, .nil⟩
  | cons r rs ih =>
    unfold granted
    obtain ⟨e, hr⟩ | ⟨s', hr, hregion, hnext, hpage⟩ := create_cases s r
    · rw [hr]
      exact ih h
    simp only [hr, hregion]
    rw [h.1] at hnext hpage ⊢
    have hmod := roundUp_mod r.size
    have halign := h.2
    obtain ⟨hall, hpair⟩ := ih (s := s') ⟨hpage, by omega⟩
    refine ⟨fun g hg => ?_, List.pairwise_cons.mpr ⟨fun g hg => ?_, hpair⟩⟩
    · rcases List.mem_cons.mp hg with rfl | hg
      · exact ⟨halign, rfl, le_refl _⟩
      · obtain ⟨haddr, hsize, hle⟩ := hall g hg
        exact ⟨haddr, hsize, by omega⟩
    · exact hnext.trans_le (hall g hg).2.2

theorem new_paged {size load kernel : U64} {info : ArchMemoryInfo} {regions : List (U64 × U64)}
    (h : archMemoryRegions size load kernel = some (info, regions) ∨
      archMemoryRegionsTee size load kernel = some (info, regions)) : (new info).Paged := by
  unfold archMemoryRegions archMemoryRegionsTee at h
  rcases h with h | h
  all_goals
    dsimp only at h
    split_ifs at h <;> cases h
  · refine ⟨rfl, ?_⟩
    show firstAddrPast32bits.toNat % 4096 = 0
    norm_num [toNat_firstAddrPast32bits]
  · refine ⟨rfl, ?_⟩
    show (_ * 0x40000000#64).toNat % 4096 = 0
    rw [BitVec.toNat_mul, show (0x40000000#64).toNat = 0x40000000 from rfl]
    omega
  · exact ⟨rfl, rfl⟩
  · exact ⟨rfl, rfl⟩

/-- **Shared memory.** In every sequence of requests the regions that are granted are whole pages
past the start of the shared memory, none overlaps another, and a refused request changes nothing.
Each region is as long as was asked for exactly if no request has a size of the last page of the 64
bits, unless it is for the GPU, which has its region. -/
theorem regions_granted_iff {size load kernel : U64} {info : ArchMemoryInfo}
    {regions : List (U64 × U64)}
    (h : archMemoryRegions size load kernel = some (info, regions) ∨
      archMemoryRegionsTee size load kernel = some (info, regions)) (rs : List ShmRequest) :
    ((∀ g ∈ (new info).granted rs, g.2.guestAddr.toNat % 4096 = 0 ∧ g.2.size.toNat % 4096 = 0 ∧
        info.shmStartAddr.toNat ≤ g.2.guestAddr.toNat) ∧
      ((new info).granted rs).Pairwise fun g g' =>
        g.2.guestAddr.toNat + g.2.size.toNat ≤ g'.2.guestAddr.toNat) ∧
    (∀ (s : ShmManager) r, (s.create r).1 ≠ .ok () → (s.create r).2 = s) ∧
    ((∀ g ∈ (new info).granted rs, g.1.toNat ≤ g.2.size.toNat) ↔
      Run.Along step Sized (new info) rs) := by
  obtain ⟨hall, hpair⟩ := granted_spec (new_paged h) rs
  refine ⟨⟨fun g hg => ?_, hpair⟩, fun s r hr => ?_, granted_long_iff (new_paged h) rs⟩
  · obtain ⟨haddr, hsize, hle⟩ := hall g hg
    refine ⟨haddr, ?_, hle⟩
    rw [hsize]
    exact roundUp_mod _
  · obtain ⟨e, he⟩ | ⟨s', he, -⟩ := create_cases s r
    · rw [he]
    · rw [he] at hr
      exact absurd rfl hr

/-- What `arch_memory_regions` returns for 512 MiB of RAM and a kernel of 16 MiB. -/
def smallInfo : ArchMemoryInfo := ⟨0x22000000, firstAddrPast32bits, Arch.pageSize⟩

theorem regions_granted_two :
    (new smallInfo).granted [.fs 0 5000, .gpu 4096, .gpu 1] =
        [(5000, ⟨0x100000000, 0x2000⟩), (4096, ⟨0x100002000, 0x1000⟩)] ∧
      ∀ g ∈ (new smallInfo).granted [.fs 0 5000, .gpu 4096, .gpu 1], g.1.toNat ≤ g.2.size.toNat :=
  ⟨by decide, (regions_granted_iff (.inl (show archMemoryRegions 0x20000000 0x1000000 0x1000000 =
    some (smallInfo, _) from rfl)) _).2.2.mpr (by decide)⟩

/-- A size of the last page gets an empty region. -/
theorem region_too_short :
    (new smallInfo).granted [.fs 0 0xffffffffffffffff, .fs 1 1] =
      [(0xffffffffffffffff, ⟨0x100000000, 0⟩), (1, ⟨0x100000000, 0x1000⟩)] := by
  decide

end ShmManager

end Shelter.Vmm
