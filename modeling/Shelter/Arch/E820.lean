import Shelter.Arch.Layout

/-!
# The memory map for the guest kernel

`configure_system` fills in the boot parameters of the guest kernel, among them the e820 map: which
addresses are RAM. It does so from `ram_last_addr` alone, while the regions of guest memory were
computed by `arch_memory_regions`.

The MP table and the write of the zero page are parameters: only whether they succeed matters here.

`e820_sound_iff` compares the two descriptions. `ram_last_addr` is the first address after the RAM,
and the map takes it for the last address of the RAM, so that most maps have a byte too much.
-/

namespace Shelter.Arch

open BitVec List

def ebdaStart : U64 := 0x9fc00
def himemStart : U64 := 0x00100000
def e820Ram : U32 := 1

structure E820Entry where
  addr : U64
  size : U64
  type : U32
  deriving DecidableEq, Repr

/-- The fields of the setup header that are set. -/
structure SetupHeader where
  typeOfLoader : BitVec 8
  bootFlag : U16
  header : U32
  cmdLinePtr : U32
  cmdlineSize : U32
  kernelAlignment : U32
  ramdiskImage : U32
  ramdiskSize : U32
  syssize : U32
  deriving DecidableEq, Repr

/-- The boot parameters: the header, and the entries of the map that are in use. -/
structure BootParams where
  hdr : SetupHeader
  e820Map : List E820Entry
  deriving DecidableEq, Repr

structure InitrdConfig where
  address : U64
  size : U64
  deriving DecidableEq, Repr

inductive Error
  | e820Configuration
  | mpTableSetup
  | zeroPageSetup
  | initrdAddress
  deriving DecidableEq, Repr

def e820Max : ℕ := 128

/-- Add an e820 region to the e820 map, if there is space left in it. -/
def addE820Entry (params : BootParams) (addr size : U64) (memType : U32) :
    Except Error BootParams :=
  if e820Max ≤ params.e820Map.length then .error .e820Configuration
  else .ok { params with e820Map := params.e820Map ++ [⟨addr, size, memType⟩] }

structure BootConfig where
  cmdlineAddr : U64
  cmdlineSize : U64
  initrd : Option InitrdConfig
  numCpus : BitVec 8

/-- The header that `configure_system` sets up; `syssize` carries the number of CPUs to the BIOS of
a TEE. -/
def setupHeader (tee : Bool) (cfg : BootConfig) : SetupHeader where
  typeOfLoader := 0xff
  bootFlag := 0xaa55
  header := 0x53726448
  cmdLinePtr := cfg.cmdlineAddr.setWidth 32
  cmdlineSize := cfg.cmdlineSize.setWidth 32
  kernelAlignment := 0x01000000
  ramdiskImage := (cfg.initrd.map fun i => i.address.setWidth 32).getD 0
  ramdiskSize := (cfg.initrd.map fun i => i.size.setWidth 32).getD 0
  syssize := if tee then cfg.numCpus.setWidth 32 else 0

def e820Entries (lastAddr : U64) (params : BootParams) : Except Error BootParams := do
  let params ← addE820Entry params 0 ebdaStart e820Ram
  if lastAddr < mmioMemStart then
    addE820Entry params himemStart (lastAddr - himemStart + 1) e820Ram
  else
    let params ← addE820Entry params himemStart (mmioMemStart - himemStart) e820Ram
    if firstAddrPast32bits < lastAddr then
      addE820Entry params firstAddrPast32bits (lastAddr - firstAddrPast32bits + 1) e820Ram
    else pure params

/-- Configures the system. The result is what is written to the zero page. -/
def configureSystem (tee : Bool) (info : ArchMemoryInfo) (cfg : BootConfig)
    (setupMptable : Bool) (writeZeroPage : BootParams → Bool) : Except Error BootParams := do
  if !tee && !setupMptable then .error .mpTableSetup
  else
    let params ← e820Entries info.ramLastAddr ⟨setupHeader tee cfg, []⟩
    if writeZeroPage params then pure params else .error .zeroPageSetup

/-! ## The entries -/

def entriesFor (lastAddr : U64) : List E820Entry :=
  ⟨0, ebdaStart, e820Ram⟩ ::
    if lastAddr < mmioMemStart then [⟨himemStart, lastAddr - himemStart + 1, e820Ram⟩]
    else ⟨himemStart, mmioMemStart - himemStart, e820Ram⟩ ::
      if firstAddrPast32bits < lastAddr then
        [⟨firstAddrPast32bits, lastAddr - firstAddrPast32bits + 1, e820Ram⟩]
      else []

theorem e820Entries_eq (lastAddr : U64) (hdr : SetupHeader) :
    e820Entries lastAddr ⟨hdr, []⟩ = .ok ⟨hdr, entriesFor lastAddr⟩ := by
  unfold e820Entries entriesFor
  split_ifs <;> rfl

theorem configureSystem_ok {tee : Bool} {info : ArchMemoryInfo} {cfg : BootConfig}
    {setupMptable : Bool} {writeZeroPage : BootParams → Bool} {params : BootParams}
    (h : configureSystem tee info cfg setupMptable writeZeroPage = .ok params) :
    params.e820Map = entriesFor info.ramLastAddr := by
  unfold configureSystem at h
  rw [e820Entries_eq] at h
  split_ifs at h with hmp
  simp only [bind, Except.bind] at h
  split_ifs at h
  cases h
  rfl

def E820Entry.region (e : E820Entry) : Region := ⟨e.addr.toNat, e.size.toNat⟩

def Backed (regions : List (U64 × U64)) (kernel : U64 × U64) (x : ℕ) : Prop :=
  (∃ r ∈ regions, (region r).Contains x) ∨ (region kernel).Contains x

/-- What the map is for: it declares no address to be RAM that is not, and none twice. -/
structure E820Sound (info : ArchMemoryInfo) (regions : List (U64 × U64)) (kernel : U64 × U64)
    (entries : List E820Entry) : Prop where
  backed : ∀ e ∈ entries, e.type = e820Ram → ∀ x, e.region.Contains x → Backed regions kernel x
  disjoint : entries.Pairwise fun e e' =>
    e.type = e820Ram → e'.type = e820Ram → ∀ x, e.region.Contains x → ¬ e'.region.Contains x
  gap : ∀ e ∈ entries, e.type = e820Ram → ∀ x, e.region.Contains x → ¬ InGap x
  ram : ∀ e ∈ entries, e.type = e820Ram → ∀ x, e.region.Contains x → x < info.ramLastAddr.toNat

def memoryRegions (tee : Bool) (size kernelLoadAddr kernelSize : U64) :
    Option (ArchMemoryInfo × List (U64 × U64)) :=
  if tee then archMemoryRegionsTee size kernelLoadAddr kernelSize
  else archMemoryRegions size kernelLoadAddr kernelSize

/-! ## The map against the regions -/

section Sound

variable {info : ArchMemoryInfo} {regions : List (U64 × U64)} {kernel : U64 × U64}

/-- `ram_last_addr` is not taken for an address of the RAM: the map either stops at the gap, or its
last entry is empty. -/
def EndsExactly (lastAddr : ℕ) : Prop :=
  lastAddr + 1 = himemStart.toNat ∨
    (mmioMemStart.toNat ≤ lastAddr ∧ lastAddr ≤ firstAddrPast32bits.toNat)
  deriving Decidable

theorem toNat_himemStart : himemStart.toNat = 0x100000 := rfl

theorem toNat_ebdaStart : ebdaStart.toNat = 0x9fc00 := rfl

/-- In every other case an entry holds the address `ram_last_addr`, or all addresses of the gap. -/
theorem entriesFor_overrun {lastAddr : U64} (h : ¬ EndsExactly lastAddr.toNat) :
    ∃ e ∈ entriesFor lastAddr, e.type = e820Ram ∧
      ∃ x, e.region.Contains x ∧ (InGap x ∨ lastAddr.toNat ≤ x) := by
  unfold EndsExactly at h
  rw [toNat_himemStart, toNat_mmioMemStart, toNat_firstAddrPast32bits] at h
  have hone : (1 : U64).toNat = 1 := rfl
  unfold entriesFor E820Entry.region Region.Contains InGap
  by_cases hlow : lastAddr < mmioMemStart
  · have hsub := toNat_sub lastAddr himemStart
    have hlen := toNat_add (lastAddr - himemStart) 1
    rw [toNat_himemStart] at hsub
    refine ⟨⟨himemStart, lastAddr - himemStart + 1, e820Ram⟩, by simp [hlow], rfl, ?_⟩
    simp only [toNat_himemStart, toNat_mmioMemStart, toNat_firstAddrPast32bits]
    rcases Nat.lt_or_ge lastAddr.toNat 0x100000 with hsmall | hlarge
    · -- the length has wrapped
      exact ⟨0xD0000000, by omega, .inl (by omega)⟩
    · exact ⟨lastAddr.toNat, by omega, .inr le_rfl⟩
  · have hsub := toNat_sub lastAddr firstAddrPast32bits
    have hlen := toNat_add (lastAddr - firstAddrPast32bits) 1
    rw [toNat_firstAddrPast32bits] at hsub
    have hhigh : firstAddrPast32bits < lastAddr := by
      rw [lt_def, toNat_mmioMemStart] at hlow
      rw [lt_def, toNat_firstAddrPast32bits]
      omega
    refine ⟨⟨firstAddrPast32bits, lastAddr - firstAddrPast32bits + 1, e820Ram⟩,
      by simp [hlow, hhigh], rfl, lastAddr.toNat, ⟨hhigh.le, ?_⟩, .inr le_rfl⟩
    simp only [toNat_firstAddrPast32bits]
    omega

theorem entriesFor_exact {lastAddr : U64} (h : EndsExactly lastAddr.toNat) :
    ∃ size, entriesFor lastAddr =
        [⟨0, ebdaStart, e820Ram⟩, ⟨himemStart, size, e820Ram⟩] ∧
      (size.toNat = 0 ∨ (mmioMemStart.toNat ≤ lastAddr.toNat ∧
        himemStart.toNat + size.toNat = mmioMemStart.toNat)) := by
  unfold EndsExactly at h
  rw [toNat_himemStart, toNat_mmioMemStart, toNat_firstAddrPast32bits] at h
  have hone : (1 : U64).toNat = 1 := rfl
  unfold entriesFor
  by_cases hlow : lastAddr < mmioMemStart
  · refine ⟨lastAddr - himemStart + 1, by rw [if_pos hlow], .inl ?_⟩
    rw [lt_def, toNat_mmioMemStart] at hlow
    rw [toNat_add, toNat_sub, toNat_himemStart, hone]
    omega
  · have hhigh : ¬ firstAddrPast32bits < lastAddr := by
      rw [lt_def, toNat_firstAddrPast32bits]
      omega
    refine ⟨mmioMemStart - himemStart, by rw [if_neg hlow, if_neg hhigh], .inr ⟨?_, rfl⟩⟩
    rwa [lt_def, not_lt] at hlow

/-- A map that ends exactly is sound if all addresses below `ram_last_addr`, up to the gap, are
backed. -/
theorem e820Sound_of_exact (h : EndsExactly info.ramLastAddr.toNat)
    (hbacked : ∀ x, x < info.ramLastAddr.toNat → x < mmioMemStart.toNat →
      Backed regions kernel x) :
    E820Sound info regions kernel (entriesFor info.ramLastAddr) := by
  obtain ⟨size, hentries, hsize⟩ := entriesFor_exact h
  unfold EndsExactly at h
  rw [hentries]
  rw [toNat_himemStart, toNat_mmioMemStart] at h hsize
  have hinside : ∀ e ∈ [⟨0, ebdaStart, e820Ram⟩, ⟨himemStart, size, e820Ram⟩],
      ∀ x, (E820Entry.region e).Contains x → x < info.ramLastAddr.toNat ∧ x < 0xD0000000 := by
    unfold E820Entry.region Region.Contains
    simp only [forall_mem_cons, toNat_ebdaStart, toNat_himemStart]
    refine ⟨fun x hx => ?_, fun x hx => ?_, forall_mem_nil _⟩
    · have hzero : (0 : U64).toNat = 0 := rfl
      omega
    · omega
  refine ⟨fun e he _ x hx => ?_, ?_, fun e he _ x hx hgap => ?_, fun e he _ x hx =>
    (hinside e he x hx).1⟩
  · exact hbacked x (hinside e he x hx).1 (hinside e he x hx).2
  · simp only [pairwise_cons, forall_mem_cons]
    refine ⟨⟨fun _ _ x hx hx' => ?_, forall_mem_nil _⟩, forall_mem_nil _,
      List.Pairwise.nil⟩
    unfold E820Entry.region Region.Contains at hx hx'
    simp only [toNat_ebdaStart, toNat_himemStart] at hx hx'
    have hzero : (0 : U64).toNat = 0 := rfl
    omega
  · unfold InGap at hgap
    have := (hinside e he x hx).2
    rw [toNat_mmioMemStart] at hgap
    omega

theorem backed_of_exact {tee : Bool} {size kernelLoadAddr kernelSize : U64}
    (hmem : memoryRegions tee size kernelLoadAddr kernelSize = some (info, regions))
    (h : EndsExactly info.ramLastAddr.toNat) {x : ℕ} (hx : x < info.ramLastAddr.toNat)
    (hgap : x < mmioMemStart.toNat) : Backed regions (kernelLoadAddr, kernelSize) x := by
  have hpages := roundUp_mod size
  have hhigh := toNat_add firstAddrPast32bits (roundUp size pageSize - mmioMemStart)
  have hrem := toNat_sub (roundUp size pageSize) mmioMemStart
  rw [toNat_mmioMemStart] at hrem hgap
  rw [toNat_firstAddrPast32bits] at hhigh
  unfold EndsExactly at h
  rw [toNat_himemStart, toNat_mmioMemStart, toNat_firstAddrPast32bits] at h
  have hzero : (0 : U64).toNat = 0 := rfl
  unfold memoryRegions archMemoryRegions archMemoryRegionsTee at hmem
  dsimp only at hmem
  unfold Backed region Region.Contains
  split_ifs at hmem with htee hkernel hlow hkernel hlow <;>
    cases hmem
  · -- with a TEE, below the gap: the first region
    exact .inl ⟨(0, roundUp size pageSize), by simp, hzero ▸ Nat.zero_le x, by
      simpa using hx⟩
  · -- beyond the gap, the end of RAM is past 4 GiB, or it has wrapped to a whole page
    rw [le_def, toNat_mmioMemStart] at hlow
    dsimp only at h hx
    omega
  · have hend := toNat_add kernelLoadAddr kernelSize
    have hlast := toNat_add (kernelLoadAddr + kernelSize) (roundUp size pageSize)
    dsimp only at h hx
    -- the first region, the kernel and the second region follow each other
    rcases Nat.lt_or_ge x kernelLoadAddr.toNat with hfirst | hfirst
    · exact .inl ⟨(0, kernelLoadAddr), by simp, hzero ▸ Nat.zero_le x, by simpa using hfirst⟩
    · rcases Nat.lt_or_ge x (kernelLoadAddr.toNat + kernelSize.toNat) with hin | hin
      · exact .inr ⟨hfirst, hin⟩
      · refine .inl ⟨(kernelLoadAddr + kernelSize, roundUp size pageSize), by simp, ?_, ?_⟩
        all_goals
          dsimp only
          omega
  · rw [le_def, toNat_mmioMemStart] at hlow
    dsimp only at h hx
    omega

/-- **The e820 map.** In every configuration of memory, the entries that `configure_system` writes
are backed by the regions and the kernel, do not overlap, and miss the gap and what is not RAM,
exactly if `ram_last_addr` lies between the start of the gap and 4 GiB, or just before 1 MiB. -/
theorem e820_sound_iff {tee : Bool} {size kernelLoadAddr kernelSize : U64} {cfg : BootConfig}
    {setupMptable : Bool} {writeZeroPage : BootParams → Bool} {params : BootParams}
    (hmem : memoryRegions tee size kernelLoadAddr kernelSize = some (info, regions))
    (hsys : configureSystem tee info cfg setupMptable writeZeroPage = .ok params) :
    E820Sound info regions (kernelLoadAddr, kernelSize) params.e820Map ↔
      EndsExactly info.ramLastAddr.toNat := by
  rw [configureSystem_ok hsys]
  constructor
  · intro h
    by_contra hover
    obtain ⟨e, he, htype, x, hx, hgap | hlast⟩ := entriesFor_overrun hover
    · exact h.gap e he htype x hx hgap
    · exact absurd (h.ram e he htype x hx) (not_lt.mpr hlast)
  · intro h
    exact e820Sound_of_exact h fun x hx hgap => backed_of_exact hmem h hx hgap

def plainBoot : BootConfig := ⟨0x20000, 0x100, none, 1⟩

/-- With a TEE, a RAM of exactly 3.25 GiB. -/
theorem e820_sound_tee :
    ∃ info regions params,
      memoryRegions true 0xD0000000 0x1000000 0x1E00000 = some (info, regions) ∧
      configureSystem true info plainBoot true (fun _ => true) = .ok params ∧
      E820Sound info regions (0x1000000, 0x1E00000) params.e820Map := by
  have hmem : memoryRegions true 0xD0000000 0x1000000 0x1E00000 =
      some (⟨0xD0000000, 0, 4096⟩, [(0, 0xD0000000), (0xffff0000, 65536)]) := by decide +kernel
  have hsys : configureSystem true ⟨0xD0000000, 0, 4096⟩ plainBoot true (fun _ => true) =
      .ok ⟨setupHeader true plainBoot, entriesFor 0xD0000000⟩ := by decide +kernel
  exact ⟨_, _, _, hmem, hsys, (e820_sound_iff hmem hsys).mpr (by decide +kernel)⟩

/-- With 512 MiB and with 4 GiB of RAM, the last entry has a byte too much. -/
theorem e820_overrun :
    (∃ info regions params, memoryRegions false 0x20000000 0x1000000 0x1E00000 =
        some (info, regions) ∧
      configureSystem false info plainBoot true (fun _ => true) = .ok params ∧
      ¬ E820Sound info regions (0x1000000, 0x1E00000) params.e820Map) ∧
    ∃ info regions params, memoryRegions true 0x100000000 0x1000000 0x1E00000 =
        some (info, regions) ∧
      configureSystem true info plainBoot true (fun _ => true) = .ok params ∧
      ¬ E820Sound info regions (0x1000000, 0x1E00000) params.e820Map := by
  have hsys₁ : configureSystem false ⟨0x22E00000, 0x100000000, 4096⟩ plainBoot true
      (fun _ => true) = .ok ⟨setupHeader false plainBoot, entriesFor 0x22E00000⟩ := by
    decide +kernel
  have hsys₂ : configureSystem true ⟨0x130000000, 0, 4096⟩ plainBoot true (fun _ => true) =
      .ok ⟨setupHeader true plainBoot, entriesFor 0x130000000⟩ := by decide +kernel
  refine ⟨⟨_, [(0, 0x1000000), (0x2E00000, 0x20000000)], _, by decide +kernel, hsys₁, fun h => ?_⟩,
    _, [(0, 0xD0000000), (0xffff0000, 65536), (0x100000000, 0x30000000)], _, by decide +kernel,
    hsys₂, fun h => ?_⟩
  · have := h.ram ⟨himemStart, 0x22D00001, e820Ram⟩ (by decide +kernel) rfl 0x22E00000
      (by decide +kernel)
    exact absurd this (by decide +kernel)
  · have := h.ram ⟨firstAddrPast32bits, 0x30000001, e820Ram⟩ (by decide +kernel) rfl 0x130000000
      (by decide +kernel)
    exact absurd this (by decide +kernel)

end Sound

end Shelter.Arch
