import Shelter.Arch.Layout
import Shelter.Memory.FlatMemory

/-!
# Loading the payload of a confidential guest

In the TEE configuration `create_guest_memory` computes the regions, maps them and copies three
images into them: the kernel at its load address, qboot at the address of the BIOS, and the initrd
at a fixed address. `build_microvm` then has four ranges measured, those of the images and the zero
page.

The copy is the `write` of the `vm_memory` crate, which stores as many bytes as are mapped and
succeeds if the first one is. Its result is only unwrapped, so an image that does not fit is loaded
in part.

1. the code: `write`, `loadPayload`, `createGuestMemory`, `measuredRegions`;
2. what a copy does, and where the regions are;
3. `payload_loaded_iff`: for which sizes the images are complete and the measured ranges are apart.
-/

open Bytes

namespace Shelter.Arch

open LawfulGuestMemory List Option

variable {M : Type} [GuestMemory M]

/-- How many of the `n` bytes from `a` on are mapped before the first hole. -/
def mappedPrefix (m : M) (a : ℕ) : ℕ → ℕ
  | 0 => 0
  | n + 1 => if addressInRange m a then mappedPrefix m (a + 1) n + 1 else 0

/-- `write`: stores the bytes up to the first address that is not mapped, and returns their number.
It fails if that is the first address. -/
def write (m : M) (buf : List Byte) (addr : ℕ) : Option (M × ℕ) :=
  if addressInRange m addr then
    let n := mappedPrefix m addr buf.length
    some ((writeSlice m addr (buf.take n)).1, n)
  else none

def initrdSevStart : U64 := 0xa00000
def zeroPageStart : U64 := 0x7000

/-- `Payload::Tee`, with the images in place of their host addresses and sizes. A size is a
`usize`. -/
structure TeePayload where
  kernel : List Byte
  kernelLoadAddr : U64
  qboot : List Byte
  initrd : List Byte
  kernel_lt : kernel.length < 2 ^ 64
  qboot_lt : qboot.length < 2 ^ 64
  initrd_lt : initrd.length < 2 ^ 64

/-- `none` is the panic of an `unwrap`. -/
def loadPayload (m : M) (payload : TeePayload) : Option M := do
  let (m, _) ← write m payload.kernel payload.kernelLoadAddr.toNat
  let (m, _) ← write m payload.qboot biosStart.toNat
  let (m, _) ← write m payload.initrd initrdSevStart.toNat
  some m

inductive StartMicrovmError
  | guestMemoryMmap
  deriving DecidableEq, Repr

variable (fromRanges : List (U64 × U64) → Option M)

/-- `memSize` is in MiB. `fromRanges` maps the regions; `none` stands for a panic. -/
def createGuestMemory (memSize : U64)
    (payload : TeePayload) : Option (Except StartMicrovmError (M × ArchMemoryInfo)) := do
  let (info, regions) ← archMemoryRegionsTee (memSize <<< 20) payload.kernelLoadAddr
    (BitVec.ofNat 64 payload.kernel.length)
  match fromRanges regions with
  | none => some (.error .guestMemoryMmap)
  | some m => do
    let m ← loadPayload m payload
    some (.ok (m, info))

/-- The ranges that `build_microvm` has measured. -/
def measuredRegions (payload : TeePayload) : List Region :=
  [⟨biosStart.toNat, payload.qboot.length⟩,
    ⟨payload.kernelLoadAddr.toNat, payload.kernel.length⟩,
    ⟨initrdSevStart.toNat, payload.initrd.length⟩,
    ⟨zeroPageStart.toNat, 4096⟩]

/-- What is relied on of `from_ranges`: a memory it returns has the given regions. -/
def LawfulFromRanges : Prop :=
  ∀ ranges m, fromRanges ranges = some m →
    ∀ a, findRegion m a = (ranges.map region).find? fun r => decide (r.Contains a)

def Holds (m : M) (a : ℕ) (bs : List Byte) : Prop :=
  Mapped m a bs.length ∧ bytesAt m a bs.length = bs

def InOneRegion (m : M) (r : Region) : Prop :=
  ∃ g, findRegion m r.start = some g ∧ r.start + r.len ≤ g.start + g.len

structure PayloadLoaded (m : M) (payload : TeePayload) : Prop where
  kernel : Holds m payload.kernelLoadAddr.toNat payload.kernel
  qboot : Holds m biosStart.toNat payload.qboot
  initrd : Holds m initrdSevStart.toNat payload.initrd
  disjoint : (measuredRegions payload).Pairwise fun r r' => Apart r.start r.len r'.start r'.len
  inside : ∀ r ∈ measuredRegions payload, InOneRegion m r

/-- The images fit where they go: qboot in the region of the BIOS, the initrd below the gap, the
kernel in one region and away from the rest. `size` is the rounded size of the RAM. -/
structure PayloadFits (size : ℕ) (payload : TeePayload) : Prop where
  qboot : payload.qboot.length ≤ 0x10000
  initrd : 0xa00000 + payload.initrd.length ≤ min size 0xD0000000
  kernel : payload.kernelLoadAddr.toNat + payload.kernel.length ≤ min size 0xD0000000 ∨
    (0xffff0000 ≤ payload.kernelLoadAddr.toNat ∧
      payload.kernelLoadAddr.toNat + payload.kernel.length ≤ 2 ^ 32) ∨
    (2 ^ 32 ≤ payload.kernelLoadAddr.toNat ∧
      payload.kernelLoadAddr.toNat + payload.kernel.length ≤ 2 ^ 32 + (size - 0xD0000000))
  zeroPage : Apart payload.kernelLoadAddr.toNat payload.kernel.length 0x7000 4096
  overQboot : Apart payload.kernelLoadAddr.toNat payload.kernel.length 0xffff0000
    payload.qboot.length
  overInitrd : Apart payload.kernelLoadAddr.toNat payload.kernel.length 0xa00000
    payload.initrd.length

/-! ## One copy -/

section Write

theorem mappedPrefix_of_mapped {m : M} {n : ℕ} : ∀ {a : ℕ}, Mapped m a n →
    mappedPrefix m a n = n := by
  induction n with
  | zero => exact fun _ => rfl
  | succ n ih =>
    intro a h
    have hfirst : addressInRange m a = true := h 0 (Nat.succ_pos n)
    rw [mappedPrefix, if_pos hfirst, ih (h.mono (by omega) (by omega))]

theorem InOneRegion.mapped [LawfulGuestMemory M] {m : M} {a n : ℕ} (h : InOneRegion m ⟨a, n⟩) :
    Mapped m a n := by
  obtain ⟨g, hg, hend⟩ := h
  have hstart := find_contains hg
  intro i hi
  apply addressInRange_iff.mpr
  refine ⟨g, find_of_contains hg ⟨?_, ?_⟩⟩
  · exact hstart.1.trans (Nat.le_add_right _ _)
  · dsimp only at hend
    omega

theorem inOneRegion_congr {m m' : M} (h : SameLayout m m') {r : Region} :
    InOneRegion m' r ↔ InOneRegion m r := by
  unfold InOneRegion
  rw [h]

variable {m m' : M} {buf : List Byte} {addr n : ℕ}

theorem Holds.of_wrote (hm : Mapped m addr buf.length) (h : Wrote addr buf m m') :
    Holds m' addr buf :=
  ⟨h.layout.mapped_iff.mpr hm, h.bytes⟩

theorem Holds.wrote {a : ℕ} {bs : List Byte} (hold : Holds m a bs) (h : Wrote addr buf m m')
    (hd : Apart addr buf.length a bs.length) : Holds m' a bs :=
  ⟨h.layout.mapped_iff.mpr hold.1, (bytesAt_congr (h.sameOn hd)).trans hold.2⟩

variable [LawfulGuestMemory M]

theorem write_layout (h : write m buf addr = some (m', n)) :
    SameLayout m m' ∧ addressInRange m addr = true := by
  unfold write at h
  split_ifs at h with hin
  cases h
  exact ⟨writeSlice_find m addr _, hin⟩

theorem write_wrote (h : write m buf addr = some (m', n)) (hm : Mapped m addr buf.length) :
    Wrote addr buf m m' := by
  unfold write at h
  split_ifs at h with hin
  cases h
  rw [mappedPrefix_of_mapped hm, take_length]
  exact writeSlice_wrote hm

end Write

/-! ## The regions of a confidential guest -/

theorem toNat_biosStart : biosStart.toNat = 0xffff0000 := rfl

theorem toNat_initrdSevStart : initrdSevStart.toNat = 0xa00000 := rfl

theorem toNat_zeroPageStart : zeroPageStart.toNat = 0x7000 := rfl

def teeRegions (size : ℕ) : List Region :=
  [⟨0, min size 0xD0000000⟩, ⟨0xffff0000, 0x10000⟩] ++
    if size ≤ 0xD0000000 then [] else [⟨2 ^ 32, size - 0xD0000000⟩]

theorem archMemoryRegionsTee_regions {size kernelLoadAddr kernelSize : U64} {info : ArchMemoryInfo}
    {regions : List (U64 × U64)}
    (h : archMemoryRegionsTee size kernelLoadAddr kernelSize = some (info, regions)) :
    regions.map region = teeRegions (roundUp size pageSize).toNat := by
  unfold archMemoryRegionsTee at h
  dsimp only at h
  unfold teeRegions
  split_ifs at h with hkernel hlow
  · cases h
    rw [BitVec.le_def, toNat_mmioMemStart] at hlow
    rw [if_pos hlow, min_eq_left hlow]
    rfl
  · cases h
    rw [BitVec.le_def, toNat_mmioMemStart] at hlow
    have hrem : (roundUp size pageSize - mmioMemStart).toNat =
        (roundUp size pageSize).toNat - 0xD0000000 := by
      rw [BitVec.toNat_sub, toNat_mmioMemStart]
      omega
    rw [if_neg hlow, min_eq_right (Nat.le_of_not_le hlow), ← hrem]
    rfl

def Placed (size a n : ℕ) : Prop :=
  (a < min size 0xD0000000 ∧ a + n ≤ min size 0xD0000000) ∨
  (0xffff0000 ≤ a ∧ a < 2 ^ 32 ∧ a + n ≤ 2 ^ 32) ∨
  (2 ^ 32 ≤ a ∧ a < 2 ^ 32 + (size - 0xD0000000) ∧ a + n ≤ 2 ^ 32 + (size - 0xD0000000))

theorem exists_find_cons (r : Region) (rs : List Region) (a n : ℕ) :
    (∃ g, (r :: rs).find? (fun r => decide (r.Contains a)) = some g ∧ a + n ≤ g.start + g.len) ↔
      (r.Contains a ∧ a + n ≤ r.start + r.len) ∨ (¬ r.Contains a ∧
        ∃ g, rs.find? (fun r => decide (r.Contains a)) = some g ∧ a + n ≤ g.start + g.len) := by
  by_cases h : r.Contains a
  · simp [h]
  · simp [h]

theorem inOneRegion_iff {m : M} {size : ℕ}
    (h : ∀ a, findRegion m a = (teeRegions size).find? fun r => decide (r.Contains a)) (a n : ℕ) :
    InOneRegion m ⟨a, n⟩ ↔ Placed size a n := by
  unfold InOneRegion Placed
  simp only [h, teeRegions, cons_append, nil_append]
  rw [exists_find_cons, exists_find_cons]
  split_ifs with hsize
  · simp only [Region.Contains, List.find?_nil, reduceCtorEq, false_and, exists_false, and_false,
      or_false]
    omega
  · rw [exists_find_cons]
    simp only [Region.Contains, List.find?_nil, reduceCtorEq, false_and, exists_false, and_false,
      or_false]
    omega

/-! ## The payload -/

section Payload

variable {fromRanges : List (U64 × U64) → Option M} {memSize : U64}
  {payload : TeePayload} {m m₀ : M} {info : ArchMemoryInfo}

theorem createGuestMemory_ok (hranges : LawfulFromRanges fromRanges)
    (h : createGuestMemory fromRanges memSize payload = some (.ok (m, info))) :
    ∃ m₀, (∀ a, findRegion m₀ a =
        (teeRegions (roundUp (memSize <<< 20) pageSize).toNat).find? fun r =>
          decide (r.Contains a)) ∧ loadPayload m₀ payload = some m := by
  obtain ⟨⟨info', regions⟩, hregions, h⟩ := bind_eq_some_iff.mp h
  dsimp only at h
  rcases hmap : fromRanges regions with _ | m₀ <;> rw [hmap] at h
  · cases h
  · obtain ⟨m', hload, ⟨⟩⟩ := bind_eq_some_iff.mp h
    refine ⟨m₀, fun a => ?_, hload⟩
    rw [hranges regions m₀ hmap a, archMemoryRegionsTee_regions hregions]

theorem loadPayload_some (h : loadPayload m₀ payload = some m) :
    ∃ m₁ m₂ n₁ n₂ n₃, write m₀ payload.kernel payload.kernelLoadAddr.toNat = some (m₁, n₁) ∧
      write m₁ payload.qboot biosStart.toNat = some (m₂, n₂) ∧
      write m₂ payload.initrd initrdSevStart.toNat = some (m, n₃) := by
  obtain ⟨⟨m₁, n₁⟩, h₁, h⟩ := bind_eq_some_iff.mp h
  obtain ⟨⟨m₂, n₂⟩, h₂, h⟩ := bind_eq_some_iff.mp h
  obtain ⟨⟨m₃, n₃⟩, h₃, ⟨⟩⟩ := bind_eq_some_iff.mp h
  exact ⟨m₁, m₂, n₁, n₂, n₃, h₁, h₂, h₃⟩

variable [LawfulGuestMemory M]

theorem loadPayload_layout (h : loadPayload m₀ payload = some m) :
    SameLayout m₀ m ∧ addressInRange m₀ payload.kernelLoadAddr.toNat = true ∧
      addressInRange m₀ initrdSevStart.toNat = true := by
  obtain ⟨m₁, m₂, n₁, n₂, n₃, h₁, h₂, h₃⟩ := loadPayload_some h
  obtain ⟨hl₁, ha₁⟩ := write_layout h₁
  obtain ⟨hl₂, _⟩ := write_layout h₂
  obtain ⟨hl₃, ha₃⟩ := write_layout h₃
  refine ⟨(hl₁.trans hl₂).trans hl₃, ha₁, ?_⟩
  rwa [(hl₁.trans hl₂).addressInRange_eq] at ha₃

theorem loadPayload_holds (h : loadPayload m₀ payload = some m)
    (hkernel : Mapped m₀ payload.kernelLoadAddr.toNat payload.kernel.length)
    (hqboot : Mapped m₀ biosStart.toNat payload.qboot.length)
    (hinitrd : Mapped m₀ initrdSevStart.toNat payload.initrd.length)
    (hkq : Apart payload.kernelLoadAddr.toNat payload.kernel.length biosStart.toNat
      payload.qboot.length)
    (hki : Apart payload.kernelLoadAddr.toNat payload.kernel.length initrdSevStart.toNat
      payload.initrd.length)
    (hqi : Apart biosStart.toNat payload.qboot.length initrdSevStart.toNat
      payload.initrd.length) :
    Holds m payload.kernelLoadAddr.toNat payload.kernel ∧ Holds m biosStart.toNat payload.qboot ∧
      Holds m initrdSevStart.toNat payload.initrd := by
  obtain ⟨m₁, m₂, n₁, n₂, n₃, h₁, h₂, h₃⟩ := loadPayload_some h
  have hw₁ := write_wrote h₁ hkernel
  have hqboot₁ := hw₁.layout.mapped_iff.mpr hqboot
  have hw₂ := write_wrote h₂ hqboot₁
  have hinitrd₂ := hw₂.layout.mapped_iff.mpr (hw₁.layout.mapped_iff.mpr hinitrd)
  have hw₃ := write_wrote h₃ hinitrd₂
  refine ⟨?_, ?_, Holds.of_wrote hinitrd₂ hw₃⟩
  · exact ((Holds.of_wrote hkernel hw₁).wrote hw₂ hkq.symm).wrote hw₃ hki.symm
  · exact (Holds.of_wrote hqboot₁ hw₂).wrote hw₃ hqi.symm

/-- The measured ranges that are in one region and apart, as conditions on the sizes. -/
theorem fits_iff {size : ℕ}
    (hfind : ∀ a, findRegion m₀ a = (teeRegions size).find? fun r => decide (r.Contains a))
    (hinitrd : addressInRange m₀ initrdSevStart.toNat = true)
    (hkernel : addressInRange m₀ payload.kernelLoadAddr.toNat = true) :
    ((∀ r ∈ measuredRegions payload, InOneRegion m₀ r) ∧
        (measuredRegions payload).Pairwise fun r r' => Apart r.start r.len r'.start r'.len) ↔
      PayloadFits size payload := by
  -- the addresses that are known to be mapped, as ranges without bytes
  have hstart : ∀ a, addressInRange m₀ a = true → Placed size a 0 := by
    intro a ha
    obtain ⟨g, hg⟩ := addressInRange_iff.mp ha
    refine (inOneRegion_iff hfind a 0).mp ⟨g, hg, ?_⟩
    exact (find_contains hg).2.le
  have hi := hstart _ hinitrd
  have hk := hstart _ hkernel
  unfold measuredRegions
  simp only [forall_mem_cons, pairwise_cons, List.Pairwise.nil, and_true,
    inOneRegion_iff hfind, apart_iff, toNat_biosStart, toNat_initrdSevStart, toNat_zeroPageStart,
    not_mem_nil, false_imp_iff, implies_true]
  rw [toNat_initrdSevStart] at hi
  unfold Placed at *
  have hlow : 0xa00000 < min size 0xD0000000 := by omega
  constructor
  · rintro ⟨⟨hq, hkin, hin, _⟩, ⟨hqk, _, _⟩, ⟨hki, hkz⟩, _⟩
    refine ⟨by omega, by omega, ?_, ?_, ?_, ?_⟩
    · rcases hkin with hkin | hkin | hkin
      · exact .inl hkin.2
      · exact .inr (.inl ⟨hkin.1, hkin.2.2⟩)
      · exact .inr (.inr ⟨hkin.1, hkin.2.2⟩)
    · exact apart_iff.mpr hkz
    · exact (apart_iff.mpr hqk).symm
    · exact apart_iff.mpr hki
  · intro hfit
    have hkin := hfit.kernel
    have hq := hfit.qboot
    have hin := hfit.initrd
    refine ⟨⟨.inr (.inl ⟨le_refl _, by omega, by omega⟩), ?_, .inl ⟨hlow, hin⟩,
      .inl ⟨by omega, by omega⟩⟩, ⟨apart_iff.mp hfit.overQboot.symm, ?_, ?_⟩,
      ⟨apart_iff.mp hfit.overInitrd, apart_iff.mp hfit.zeroPage⟩, ?_⟩
    · clear hq hin
      omega
    all_goals
      omega

theorem fits_of_loaded (hranges : LawfulFromRanges fromRanges)
    (h : createGuestMemory fromRanges memSize payload = some (.ok (m, info)))
    (hl : PayloadLoaded m payload) :
    PayloadFits (roundUp (memSize <<< 20) pageSize).toNat payload := by
  obtain ⟨m₀, hfind, hload⟩ := createGuestMemory_ok hranges h
  obtain ⟨hlayout, hkernel, hinitrd⟩ := loadPayload_layout hload
  apply (fits_iff hfind hinitrd hkernel).mp
  exact ⟨fun r hr => (inOneRegion_congr hlayout).mp (hl.inside r hr), hl.disjoint⟩

/-- **The payload.** Where `create_guest_memory` returns a memory, it holds the three images, and
the measured ranges are apart and each in one region, exactly if the images fit where they go. -/
theorem payload_loaded_iff (hranges : LawfulFromRanges fromRanges)
    (h : createGuestMemory fromRanges memSize payload = some (.ok (m, info))) : PayloadLoaded m
    payload ↔ PayloadFits (roundUp (memSize <<< 20) pageSize).toNat payload := by
  refine ⟨fits_of_loaded hranges h, fun hp => ?_⟩
  obtain ⟨m₀, hfind, hload⟩ := createGuestMemory_ok hranges h
  obtain ⟨hlayout, hkernel, hinitrd⟩ := loadPayload_layout hload
  obtain ⟨hinside, hdisjoint⟩ := (fits_iff hfind hinitrd hkernel).mpr hp
  have hin := hinside
  have hdisj := hdisjoint
  simp only [measuredRegions, forall_mem_cons, pairwise_cons] at hin hdisj
  obtain ⟨hk, hq, hi⟩ := loadPayload_holds hload hin.2.1.mapped hin.1.mapped hin.2.2.1.mapped
    hdisj.1.1.symm hdisj.2.1.1 hdisj.1.2.1
  refine ⟨hk, hq, hi, hdisjoint, fun r hr => ?_⟩
  exact (inOneRegion_congr hlayout).mpr (hinside r hr)

/-! ## Payloads that are accepted -/

theorem exists_write {a : ℕ} (bs : List Byte) (h : addressInRange m a = true) :
    ∃ m' n, write m bs a = some (m', n) ∧ SameLayout m m' := by
  unfold write
  rw [if_pos h]
  exact ⟨_, _, rfl, writeSlice_find m a _⟩

theorem exists_createGuestMemory {regions : List (U64 × U64)}
    (hregions : archMemoryRegionsTee (memSize <<< 20) payload.kernelLoadAddr
      (BitVec.ofNat 64 payload.kernel.length) = some (info, regions))
    (hmap : fromRanges regions = some m₀)
    (hkernel : addressInRange m₀ payload.kernelLoadAddr.toNat = true)
    (hbios : addressInRange m₀ biosStart.toNat = true)
    (hinitrd : addressInRange m₀ initrdSevStart.toNat = true) :
    ∃ m, createGuestMemory fromRanges memSize payload = some (.ok (m, info)) := by
  obtain ⟨m₁, n₁, h₁, hl₁⟩ := exists_write payload.kernel hkernel
  obtain ⟨m₂, n₂, h₂, hl₂⟩ := exists_write payload.qboot
    ((hl₁.addressInRange_eq _).trans hbios)
  obtain ⟨m₃, n₃, h₃, _⟩ := exists_write payload.initrd
    (((hl₁.trans hl₂).addressInRange_eq _).trans hinitrd)
  refine ⟨m₃, ?_⟩
  unfold createGuestMemory loadPayload
  simp only [hregions, bind_eq_bind, bind_some, hmap, h₁, h₂, h₃]

end Payload

/-- `from_ranges` on a `FlatMemory`: no empty region, and no overlap. -/
def flatFromRanges (ranges : List (U64 × U64)) : Option FlatMemory :=
  if h : LayoutOk (ranges.map region) then
    if ranges.any fun r => r.2 == 0 then none else some (FlatMemory.zeroed (ranges.map region) h)
  else none

theorem lawful_flatFromRanges : LawfulFromRanges flatFromRanges := by
  intro ranges m h a
  unfold flatFromRanges at h
  split_ifs at h
  cases h
  rfl

def ranges512 : List (U64 × U64) := [(0, 0x20000000), (0xffff0000, 65536)]

theorem ranges512_ok : LayoutOk (ranges512.map region) := by decide +kernel

theorem flatFromRanges_512 :
    flatFromRanges ranges512 = some (FlatMemory.zeroed _ ranges512_ok) := by
  unfold flatFromRanges
  rw [dif_pos ranges512_ok, if_neg (by decide +kernel)]

/-- Any payload with a kernel of one page at 16 MiB is accepted with 512 MiB of RAM. -/
theorem exists_create512 (payload : TeePayload) (haddr : payload.kernelLoadAddr = 0x1000000)
    (hsize : payload.kernel.length = 4096) :
    ∃ m info, createGuestMemory flatFromRanges 512 payload = some (.ok (m, info)) := by
  have hregions : archMemoryRegionsTee ((512 : U64) <<< 20) payload.kernelLoadAddr
      (BitVec.ofNat 64 payload.kernel.length) = some (⟨0x20000000, 0, 4096⟩, ranges512) := by
    rw [haddr, hsize]
    decide +kernel
  have hkernel : addressInRange (FlatMemory.zeroed _ ranges512_ok)
      payload.kernelLoadAddr.toNat = true := by
    rw [haddr]
    decide +kernel
  obtain ⟨m, hm⟩ := exists_createGuestMemory hregions flatFromRanges_512 hkernel
    (by decide +kernel) (by decide +kernel)
  exact ⟨m, _, hm⟩

/-- A kernel of one page at 16 MiB, a qboot of 64 KiB, and an initrd of this many bytes. These are
sizes that `set_kernel_bundle` and `set_qboot_bundle` accept; that of the initrd is not checked. -/
def pagePayload (initrd : U64) : TeePayload where
  kernel := List.replicate 4096 1
  kernelLoadAddr := 0x1000000
  qboot := List.replicate 0x10000 2
  initrd := List.replicate initrd.toNat 3
  kernel_lt := by rw [length_replicate]; omega
  qboot_lt := by rw [length_replicate]; omega
  initrd_lt := by simpa using initrd.isLt

theorem exists_create_pagePayload (initrd : U64) : ∃ m info,
    createGuestMemory flatFromRanges 512 (pagePayload initrd) = some (.ok (m, info)) :=
  exists_create512 (pagePayload initrd) rfl length_replicate

theorem pagePayload_fits {initrd : U64} {size : ℕ} :
    PayloadFits size (pagePayload initrd) ↔
      0x1001000 ≤ min size 0xD0000000 ∧ initrd.toNat ≤ 0x600000 := by
  have haddr : (pagePayload initrd).kernelLoadAddr.toNat = 0x1000000 := rfl
  have hkernel : (pagePayload initrd).kernel.length = 4096 := length_replicate
  have hqboot : (pagePayload initrd).qboot.length = 0x10000 := length_replicate
  have hinitrd : (pagePayload initrd).initrd.length = initrd.toNat := length_replicate
  constructor
  · rintro ⟨_, hi, hk, _, _, hki⟩
    rw [apart_iff] at hki
    rw [hinitrd] at hi hki
    exact ⟨by omega, by omega⟩
  · rintro ⟨hk, hki⟩
    refine ⟨hqboot.le, ?_, .inl ?_, apart_iff.mpr ?_, apart_iff.mpr ?_, apart_iff.mpr ?_⟩
    · rw [hinitrd]
      omega
    · rw [haddr, hkernel]
      omega
    · rw [haddr]
      omega
    · rw [haddr, hkernel]
      omega
    · rw [haddr, hinitrd]
      omega

/-- An initrd of 1 MiB. -/
theorem payload_loaded_512MiB :
    ∃ m info, createGuestMemory flatFromRanges 512 (pagePayload 0x100000) =
        some (.ok (m, info)) ∧ PayloadLoaded m (pagePayload 0x100000) := by
  obtain ⟨m, info, h⟩ := exists_create_pagePayload 0x100000
  refine ⟨m, info, h, (payload_loaded_iff lawful_flatFromRanges h).mpr ?_⟩
  exact pagePayload_fits.mpr (by decide +kernel)

/-- An initrd that reaches the kernel overwrites it. -/
theorem payload_incomplete :
    ∃ m info, createGuestMemory flatFromRanges 512 (pagePayload 0x600001) =
        some (.ok (m, info)) ∧ ¬ PayloadLoaded m (pagePayload 0x600001) := by
  obtain ⟨m, info, h⟩ := exists_create_pagePayload 0x600001
  refine ⟨m, info, h, fun hl => ?_⟩
  have hfits := pagePayload_fits.mp (fits_of_loaded lawful_flatFromRanges h hl)
  exact absurd hfits.2 (by decide +kernel)

end Shelter.Arch
