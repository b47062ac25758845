import Shelter.Fs.Mappings
import Shelter.Fs.Read

/-!
# The built-in program as a file

The guest sees the program `init.krun` in two ways: `read` copies a slice of it, and `setupmapping`
fills anonymous pages of the window with it. The first one panics behind the end, and the second one
copies from the beginning of the program whatever the offset in the file is. `init_file_iff` says
when the two show the content of the file.

1. `read_eq_of_le` is the slice that is handed to the writer.
2. `setupmappingInit_spec` says which bytes the pages hold.
-/

open Bytes

namespace Shelter.Fs

open Virtio Prog List

namespace Passthrough

variable {M : Type}

/-! ## Reading -/

section Read

variable [GuestMemory M]

/-- The bytes of the program from `min(offset, n)` to `min(offset + size, n)`. -/
def initSlice (host : Host) (size : U32) (offset : U64) : List Byte :=
  let n := host.initBinary.length
  (host.initBinary.take (min (offset.toNat + size.toNat) n)).drop (min offset.toNat n)

/-- The read hands exactly this slice to the writer, and returns what the writer does. -/
def ReadsSlice (host : Host) (s : Served) (handle : U64) (w : Writer) (size : U32) (offset : U64)
    (m : M) : Prop :=
  read host s.fs.initInode handle w size offset (s, m) =
    some ((w.write m (initSlice host size offset)).2.1.mapError .kind,
      (s, (w.write m (initSlice host size offset)).1.mem))

variable {host : Host} {size : U32} {offset : U64}

theorem initSlice_eq (h : offset.toNat ≤ host.initBinary.length) :
    initSlice host size offset = (host.initBinary.drop offset.toNat).take size.toNat := by
  unfold initSlice
  dsimp only
  rw [Nat.min_eq_left h, drop_take, take_eq_take_iff, length_drop]
  omega

theorem read_eq_of_le (h : offset.toNat ≤ host.initBinary.length) (s : Served) (handle : U64)
    (w : Writer) (m : M) : ReadsSlice host s handle w size offset m := by
  have hlen : (host.initBinary.drop offset.toNat).take
      (if offset.toNat + size.toNat < host.initBinary.length then size.toNat
        else host.initBinary.length - offset.toNat) = initSlice host size offset := by
    rw [initSlice_eq h, take_eq_take_iff, length_drop]
    split_ifs <;> omega
  unfold ReadsSlice read
  rw [if_pos rfl, if_neg (by simpa using h)]
  dsimp only
  rw [hlen]

theorem readsSlice_iff (host : Host) (s : Served) (handle : U64) (w : Writer) (size : U32)
    (offset : U64) (m : M) :
    ReadsSlice host s handle w size offset m ↔ offset.toNat ≤ host.initBinary.length := by
  constructor
  · intro h
    by_contra hlt
    unfold ReadsSlice read at h
    rw [if_pos rfl, if_pos (by simpa using hlt)] at h
    cases h
  · intro h
    exact read_eq_of_le h s handle w m

end Read

/-! ## Mapping -/

def Space : Type := ℕ → Byte

namespace Space

def zeroed (addr len : U64) (space : Space) : Space := fun a =>
  if addr.toNat ≤ a ∧ a < addr.toNat + pageAlign len.toNat then 0 else space a

def memcpy (addr : U64) (src : List Byte) (space : Space) : Space := fun a =>
  if addr.toNat ≤ a then (src[a - addr.toNat]?).getD (space a) else space a

variable {addr len : U64} {p : ℕ}

theorem zeroed_add (hp : p < len.toNat) (space : Space) :
    zeroed addr len space (addr.toNat + p) = 0 := by
  apply if_pos
  unfold pageAlign
  omega

theorem memcpy_add (addr : U64) (src : List Byte) (space : Space) (p : ℕ) :
    memcpy addr src space (addr.toNat + p) = src[p]?.getD (space (addr.toNat + p)) := by
  unfold memcpy
  rw [if_pos (Nat.le_add_right _ _), Nat.add_sub_cancel_left]

theorem memcpy_zeroed (hp : p < len.toNat) (src : List Byte) (space : Space) :
    memcpy addr (src.take len.toNat) (zeroed addr len space) (addr.toNat + p) = src.getD p 0 := by
  rw [memcpy_add, zeroed_add hp, List.getElem?_take_of_lt hp, getD_eq_getElem?_getD]

end Space

section Map

variable (host : Host) (req : SetupmappingIn) (hostShmBase shmSize : U64)

/-- `setupmapping` for the built-in program, with the bytes of the pages. -/
def setupmappingInit : Prog (Served × Space) IoErr Unit :=
  if shmSize < req.moffset + req.len then fail (.os .einval)
  else do
    let addr := hostShmBase + req.moffset
    onFs (mmap host addr req.len (protRead ||| protWrite)
      (mapPrivate ||| mapAnonymous ||| mapFixed) none 0)
    modify fun p => (p.1, p.2.zeroed addr req.len)
    let toCopy := if host.initBinary.length < req.len.toNat then host.initBinary.length
      else req.len.toNat
    modify fun p => (p.1, p.2.memcpy addr (host.initBinary.take toCopy))

/-- The byte of the file at a position, and zero beyond the end. -/
def initByte (k : ℕ) : Byte := host.initBinary.getD k 0

def ShowsFile (space : Space) : Prop :=
  ∀ p < req.len.toNat, space ((hostShmBase + req.moffset).toNat + p) =
    initByte host (req.foffset.toNat + p)

/-- The file is the same from its beginning and from the offset on, as far as the range goes. -/
def Repeats : Prop :=
  ∀ p < req.len.toNat, initByte host p = initByte host (req.foffset.toNat + p)

instance : Decidable (Repeats host req) := Nat.decidableBallLT _ _

/-- Apart from the bytes, this is what the server calls for the inode of the program. -/
theorem setupmapping_init (s : Served) (space : Space) :
    (setupmappingInit host req hostShmBase shmSize (s, space)).map (fun out => (out.1, out.2.1)) =
      setupmapping host s.fs.initInode req hostShmBase shmSize s := by
  unfold setupmappingInit setupmapping
  by_cases hcheck : shmSize < req.moffset + req.len
  · rw [if_pos hcheck, if_pos hcheck]
    rfl
  rw [if_neg hcheck, if_neg hcheck, bind_ok (get_run s), if_pos rfl]
  obtain ⟨r, s', hrun, -⟩ := mmap_run host (hostShmBase + req.moffset) req.len
    (protRead ||| protWrite) (mapPrivate ||| mapAnonymous ||| mapFixed) none 0 s
  have hon := onFs_some hrun space
  rw [hrun]
  rcases r with e | _
  · rw [bind_error hon]
    rfl
  · rw [bind_ok hon]
    rfl

theorem setupmappingInit_spec (s : Served) (space : Space) :
    ∃ r s' space', setupmappingInit host req hostShmBase shmSize (s, space) =
        some (r, (s', space')) ∧
      (r = .ok () → ∀ p < req.len.toNat,
        space' ((hostShmBase + req.moffset).toNat + p) = initByte host p) := by
  unfold setupmappingInit
  split
  · exact ⟨_, s, space, rfl, nofun⟩
  obtain ⟨r, s', hrun, -⟩ := mmap_run host (hostShmBase + req.moffset) req.len
    (protRead ||| protWrite) (mapPrivate ||| mapAnonymous ||| mapFixed) none 0 s
  have hon := onFs_some hrun space
  rcases r with e | _
  · exact ⟨_, s', space, bind_error hon, nofun⟩
  · rw [bind_ok hon]
    refine ⟨_, s', _, rfl, ?_⟩
    intro _ p hp
    have htake : host.initBinary.take (if host.initBinary.length < req.len.toNat then
        host.initBinary.length else req.len.toNat) = host.initBinary.take req.len.toNat := by
      rw [take_eq_take_iff]
      split_ifs <;> omega
    rw [htake]
    exact Space.memcpy_zeroed hp host.initBinary space

end Map

/-! ## The file -/

theorem init_file_iff [GuestMemory M] [LawfulGuestMemory M] (host : Host) (s : Served) :
    (∀ (handle : U64) (w : Writer) (size : U32) (offset : U64) (m : M),
      (ReadsSlice host s handle w size offset m ↔ offset.toNat ≤ host.initBinary.length) ∧
      -- with room for the slice, it arrives
      (w.Ready m → (initSlice host size offset).length ≤ w.addrs.length →
        offset.toNat ≤ host.initBinary.length →
        ∃ m', read host s.fs.initInode handle w size offset (s, m) =
            some (.ok (initSlice host size offset).length, (s, m')) ∧
          Stored (w.addrs.take (initSlice host size offset).length)
            (initSlice host size offset) m m')) ∧
    ∀ (req : SetupmappingIn) (hostShmBase shmSize : U64) (space : Space),
      ∃ r s' space', setupmappingInit host req hostShmBase shmSize (s, space) =
          some (r, (s', space')) ∧
        (r = .ok () → (ShowsFile host req hostShmBase space' ↔ Repeats host req)) := by
  refine ⟨fun handle w size offset m => ⟨readsSlice_iff host s handle w size offset m, ?_⟩, ?_⟩
  · intro hw hroom hend
    obtain ⟨e, w', hwrite, hstored, -⟩ := Writer.write_spec hw (initSlice host size offset)
    have hread := (readsSlice_iff host s handle w size offset m).mpr hend
    rw [ReadsSlice, hwrite, Nat.min_eq_left hroom] at hread
    rw [take_of_length_le hroom] at hstored
    exact ⟨e.mem, hread, hstored⟩
  · intro req hostShmBase shmSize space
    obtain ⟨r, s', space', hrun, hbytes⟩ :=
      setupmappingInit_spec host req hostShmBase shmSize s space
    refine ⟨r, s', space', hrun, fun hok => ?_⟩
    constructor
    · intro hshows p hp
      rw [← hshows p hp, hbytes hok p hp]
    · intro hrepeats p hp
      rw [hbytes hok p hp, hrepeats p hp]

def threeByteHost : Host := { calmHost with initBinary := [1, 2, 3] }

/-- Two bytes are read into two descriptors, and a mapping from the beginning shows the file. -/
theorem init_file_beginning :
    (∃ m', read threeByteHost 2 0 ⟨⟨[⟨0x10, 1⟩, ⟨0x40, 9⟩], 0⟩⟩ 5 1
        (smallServed, FlatMemory.zeroed [⟨0, 0x100⟩] (by decide)) =
          some (.ok 2, (smallServed, m')) ∧ Stored [0x10, 0x40] [2, 3]
            (FlatMemory.zeroed [⟨0, 0x100⟩] (by decide)) m') ∧
    ∃ s' space', setupmappingInit threeByteHost ⟨0, 0, 0x1000, 0, 0⟩ smallWindow.hostAddr
        smallWindow.size (smallServed, fun _ => 0xff) = some (.ok (), (s', space')) ∧
      ShowsFile threeByteHost ⟨0, 0, 0x1000, 0, 0⟩ smallWindow.hostAddr space' := by
  constructor
  · exact ((init_file_iff threeByteHost smallServed).1 0 ⟨⟨[⟨0x10, 1⟩, ⟨0x40, 9⟩], 0⟩⟩ 5 1
      (FlatMemory.zeroed [⟨0, 0x100⟩] (by decide))).2
        ⟨by decide +kernel, by decide +kernel, by decide +kernel⟩ (by decide) (by decide)
  · obtain ⟨r, s', space', hrun, hiff⟩ := (init_file_iff (M := FlatMemory) threeByteHost
      smallServed).2 ⟨0, 0, 0x1000, 0, 0⟩ smallWindow.hostAddr smallWindow.size fun _ => 0xff
    have hok : r = .ok () := (Prod.mk.inj (Option.some.inj hrun)).1.symm
    rw [hok] at hrun
    refine ⟨s', space', hrun, (hiff hok).mpr ?_⟩
    intro p hp
    rw [show (0 : U64).toNat = 0 from rfl, Nat.zero_add]

/-- Four bytes into the file, a read panics; and a mapping of the second page shows the first. -/
theorem init_file_elsewhere :
    read threeByteHost 2 0 ⟨⟨[⟨0x10, 1⟩, ⟨0x40, 9⟩], 0⟩⟩ 5 4
      (smallServed, FlatMemory.zeroed [⟨0, 0x100⟩] (by decide)) = none ∧
    ∃ s' space', setupmappingInit threeByteHost ⟨0, 0x1000, 0x1000, 0, 0⟩ smallWindow.hostAddr
        smallWindow.size (smallServed, fun _ => 0xff) = some (.ok (), (s', space')) ∧
      space' 0x100000 = 1 ∧ initByte threeByteHost 0x1000 = 0 :=
  ⟨by decide +kernel, _, _, rfl, by decide +kernel, by decide +kernel⟩

end Passthrough

end Shelter.Fs
