import Mathlib.Data.BitVec
import Mathlib.Data.List.Pairwise
import Shelter.Lib.OrderedMap
import Shelter.Memory.GuestMemory

/-!
# The bus that routes accesses to devices

Devices are kept by the base of their range. `insert` looks for an overlap with two searches for a
predecessor, not by comparing all ranges; `bus_routes` says that this finds every overlap, and that
`get_device` finds the device of an address.
-/

namespace Shelter.Devices

open OrderedMap

variable {D : Type}

structure BusRange where
  base : U64
  len : U64
  deriving DecidableEq, Repr

def BusRange.ord (r : BusRange) : ℕ := r.base.toNat

def BusRange.Contains (r : BusRange) (addr : U64) : Prop :=
  r.base.toNat ≤ addr.toNat ∧ addr.toNat < r.base.toNat + r.len.toNat
  deriving Decidable

def BusRange.Disjoint (r r' : BusRange) : Prop := ∀ addr, ¬ (r.Contains addr ∧ r'.Contains addr)

variable {r : BusRange}

theorem BusRange.Disjoint.symm {r' : BusRange} (h : r.Disjoint r') : r'.Disjoint r :=
  fun addr hc => h addr hc.symm

theorem BusRange.contains_base (h : r.len ≠ 0) : r.Contains r.base := by
  have hpos : 0 < r.len.toNat := Nat.pos_of_ne_zero fun hz => h (BitVec.eq_of_toNat_eq hz)
  exact ⟨le_refl _, Nat.lt_add_of_pos_right hpos⟩

inductive BusError
  | overlap
  deriving DecidableEq, Repr

structure Bus (D : Type) where
  devices : OrderedMap BusRange D BusRange.ord

namespace Bus

def new : Bus D := ⟨∅⟩

variable (bus : Bus D)

def firstBefore (addr : U64) : Option (BusRange × D) :=
  bus.devices.lastLe addr.toNat

def getDevice (addr : U64) : Option (U64 × D) :=
  match bus.firstBefore addr with
  | some (⟨start, len⟩, dev) =>
    let offset := addr - start
    if offset < len then some (offset, dev) else none
  | none => none

def startsIn (base len : U64) : Bool :=
  match bus.firstBefore (base + len - 1) with
  | some (⟨start, _⟩, _) => start ≥ base
  | none => false

def insert (device : D) (base len : U64) : Except BusError Unit × Bus D :=
  if len = 0 then (.error .overlap, bus)
  -- the base lies in the range of another device
  else if (bus.getDevice base).isSome then (.error .overlap, bus)
  else if bus.startsIn base len then (.error .overlap, bus)
  else
    match bus.devices.insert ⟨base, len⟩ device with
    | (some _, devices) => (.error .overlap, { bus with devices })
    | (none, devices) => (.ok (), { bus with devices })

/-! ## The ranges -/

/-- The ranges of the bus: none is empty, and no address lies in two of them. -/
structure WellFormed (bus : Bus D) : Prop where
  nonempty : ∀ e ∈ bus.devices.entries, e.1.len ≠ 0
  disjoint : bus.devices.entries.Pairwise fun a b => a.1.Disjoint b.1

theorem new_wellFormed : (new : Bus D).WellFormed := ⟨nofun, .nil⟩

theorem offset_lt_iff {addr : U64} (h : r.base.toNat ≤ addr.toNat) :
    addr - r.base < r.len ↔ r.Contains addr := by
  have hsub : (addr - r.base).toNat = addr.toNat - r.base.toNat := BitVec.toNat_sub_of_le h
  rw [BitVec.lt_def, hsub, BusRange.Contains]
  omega

section Ranges

variable {bus : Bus D} (wf : bus.WellFormed)
include wf

variable {e : BusRange × D} {addr : U64}

theorem WellFormed.eq_of_contains {e' : BusRange × D} (he : e ∈ bus.devices.entries)
    (he' : e' ∈ bus.devices.entries) (hc : e.1.Contains addr) (hc' : e'.1.Contains addr) :
    e = e' := by
  have hsymm : Std.Symm fun a b : BusRange × D => a.1.Disjoint b.1 := ⟨fun _ _ h => h.symm⟩
  by_contra hne
  exact wf.disjoint.forall he he' hne addr ⟨hc, hc'⟩

theorem firstBefore_of_contains (he : e ∈ bus.devices.entries) (hc : e.1.Contains addr) :
    bus.firstBefore addr = some e := by
  cases hfind : bus.firstBefore addr with
  | none =>
    have habove := lastLe_eq_none.mp hfind e he
    exact absurd hc.1 (not_le_of_gt habove)
  | some e' =>
    obtain ⟨he', hle, hlast⟩ := lastLe_eq_some hfind
    rcases hlast e he hc.1 with rfl | hlt
    · rfl
    · -- the later start would be an address of both
      have hin : e.1.Contains e'.1.base := ⟨hlt.le, lt_of_le_of_lt hle hc.2⟩
      have heq := wf.eq_of_contains he he' hin (BusRange.contains_base (wf.nonempty e' he'))
      rw [heq]

theorem getDevice_eq_some {offset : U64} {dev : D} :
    bus.getDevice addr = some (offset, dev) ↔
      ∃ r, (r, dev) ∈ bus.devices.entries ∧ r.Contains addr ∧ offset = addr - r.base := by
  constructor
  · intro h
    rw [getDevice] at h
    split at h
    · rename_i start len dev' hfind
      obtain ⟨hin, hle, -⟩ := lastLe_eq_some hfind
      obtain ⟨hlt, ⟨⟩⟩ := Option.ite_some_none_eq_some.mp h
      exact ⟨⟨start, len⟩, hin, (offset_lt_iff hle).mp hlt, rfl⟩
    · cases h
  · rintro ⟨r, hin, hc, rfl⟩
    rw [getDevice, firstBefore_of_contains wf hin hc]
    exact if_pos ((offset_lt_iff hc.1).mpr hc)

theorem getDevice_isSome :
    (bus.getDevice addr).isSome = true ↔ ∃ e ∈ bus.devices.entries, e.1.Contains addr := by
  rw [Option.isSome_iff_exists]
  constructor
  · rintro ⟨⟨offset, dev⟩, h⟩
    obtain ⟨r, hin, hc, -⟩ := (getDevice_eq_some wf).mp h
    exact ⟨(r, dev), hin, hc⟩
  · rintro ⟨⟨r, dev⟩, hin, hc⟩
    exact ⟨_, (getDevice_eq_some wf).mpr ⟨r, hin, hc, rfl⟩⟩

theorem overlap_found (hlen : r.len ≠ 0) (hend : r.base.toNat + r.len.toNat < 2 ^ 64) :
    ((bus.getDevice r.base).isSome = true ∨ bus.startsIn r.base r.len = true) ↔
      ∃ e ∈ bus.devices.entries, ¬ e.1.Disjoint r := by
  have hpos : 0 < r.len.toNat := Nat.pos_of_ne_zero fun hz => hlen (BitVec.eq_of_toNat_eq hz)
  have hlast : (r.base + r.len - 1).toNat = r.base.toNat + r.len.toNat - 1 := by bv_omega
  constructor
  · rintro (hbase | hstart)
    · obtain ⟨e, he, hc⟩ := (getDevice_isSome wf).mp hbase
      exact ⟨e, he, fun hd => hd r.base ⟨hc, BusRange.contains_base hlen⟩⟩
    · rw [startsIn] at hstart
      split at hstart
      · rename_i start len dev hfind
        obtain ⟨hin, hle, -⟩ := lastLe_eq_some hfind
        have hge : r.base.toNat ≤ start.toNat := of_decide_eq_true hstart
        have hle' : start.toNat ≤ (r.base + r.len - 1).toNat := hle
        refine ⟨_, hin, fun hd => hd start ⟨BusRange.contains_base (wf.nonempty _ hin), hge, ?_⟩⟩
        omega
      · cases hstart
  · rintro ⟨e, he, hnot⟩
    obtain ⟨addr, hnot⟩ := not_forall.mp hnot
    obtain ⟨hce, hcr⟩ := not_not.mp hnot
    have hend' := hcr.2
    by_cases hle : e.1.base.toNat ≤ r.base.toNat
    · -- it starts before the new one, and then contains its base
      exact .inl ((getDevice_isSome wf).mpr ⟨e, he, hle, lt_of_le_of_lt hcr.1 hce.2⟩)
    · right
      have hin : e.1.base.toNat ≤ (r.base + r.len - 1).toNat := by
        have := hce.1
        omega
      rw [startsIn]
      split
      · rename_i start len dev hfind
        obtain ⟨-, -, hmax⟩ := lastLe_eq_some hfind
        have hle' : e.1.base.toNat ≤ start.toNat := by
          rcases hmax e he hin with rfl | hlt
          · exact le_refl _
          · exact hlt.le
        refine decide_eq_true ?_
        show r.base.toNat ≤ start.toNat
        omega
      · rename_i hfind
        exact absurd hin (not_le_of_gt (lastLe_eq_none.mp hfind e he))

theorem insert_cases (dev : D) (hend : r.base.toNat + r.len.toNat < 2 ^ 64) :
    ((r.len = 0 ∨ ∃ e ∈ bus.devices.entries, ¬ e.1.Disjoint r) ∧
        bus.insert dev r.base r.len = (.error .overlap, bus)) ∨
      (r.len ≠ 0 ∧ (∀ e ∈ bus.devices.entries, e.1.Disjoint r) ∧
        (bus.insert dev r.base r.len).1 = .ok () ∧
        (bus.insert dev r.base r.len).2.devices.entries.Perm
          ((r, dev) :: bus.devices.entries)) := by
  by_cases hlen : r.len = 0
  · exact .inl ⟨.inl hlen, if_pos hlen⟩
  by_cases hover : ∃ e ∈ bus.devices.entries, ¬ e.1.Disjoint r
  · refine .inl ⟨.inr hover, ?_⟩
    rw [insert, if_neg hlen]
    rcases (overlap_found wf hlen hend).mpr hover with hbase | hstart
    · exact if_pos hbase
    · rw [if_pos hstart, ite_self]
  · have hfound := fun h => hover ((overlap_found wf hlen hend).mp h)
    have hdisjoint : ∀ e ∈ bus.devices.entries, e.1.Disjoint r :=
      fun e he => not_not.mp fun hd => hover ⟨e, he, hd⟩
    have hnew : ∀ e ∈ bus.devices.entries, BusRange.ord e.1 ≠ BusRange.ord r := by
      intro e he heq
      have hsame : e.1.base = r.base := BitVec.eq_of_toNat_eq heq
      refine hdisjoint e he r.base ⟨?_, BusRange.contains_base hlen⟩
      rw [← hsame]
      exact BusRange.contains_base (wf.nonempty e he)
    obtain ⟨hnone, hperm⟩ := insertEntry_of_new (v := dev) hnew
    have hinsert : bus.insert dev r.base r.len = (.ok (), ⟨(bus.devices.insert r dev).2⟩) := by
      rw [insert, if_neg hlen, if_neg fun h => hfound (.inl h), if_neg fun h => hfound (.inr h)]
      show (match ((insertEntry _ r dev _).1, (bus.devices.insert r dev).2) with
        | (some _, devices) => (Except.error BusError.overlap, Bus.mk devices)
        | (none, devices) => (Except.ok (), Bus.mk devices)) = _
      rw [hnone]
    rw [hinsert]
    exact .inr ⟨hlen, hdisjoint, rfl, hperm⟩

theorem insert_wellFormed (dev : D) (hend : r.base.toNat + r.len.toNat < 2 ^ 64) :
    (bus.insert dev r.base r.len).2.WellFormed := by
  rcases insert_cases wf dev hend with ⟨-, hsame⟩ | ⟨hlen, hdisjoint, -, hperm⟩
  · rw [hsame]
    exact wf
  · refine ⟨fun e he => ?_, ?_⟩
    · rcases List.mem_cons.mp (hperm.mem_iff.mp he) with rfl | he
      · exact hlen
      · exact wf.nonempty e he
    · refine hperm.symm.pairwise ?_ fun h => h.symm
      exact List.pairwise_cons.mpr ⟨fun e he => (hdisjoint e he).symm, wf.disjoint⟩

end Ranges

def insertAll (bus : Bus D) : List (BusRange × D) → Bus D
  | [] => bus
  | (r, dev) :: calls => (bus.insert dev r.base r.len).2.insertAll calls

theorem insertAll_wellFormed {bus : Bus D} (wf : bus.WellFormed) {calls : List (BusRange × D)}
    (hcalls : ∀ c ∈ calls, c.1.base.toNat + c.1.len.toNat < 2 ^ 64) :
    (bus.insertAll calls).WellFormed := by
  induction calls generalizing bus with
  | nil => exact wf
  | cons c calls ih =>
    have hfirst := hcalls c List.mem_cons_self
    exact ih (insert_wellFormed wf c.2 hfirst) fun c' hc' => hcalls c' (List.mem_cons_of_mem _ hc')

/-- After any insertions the ranges are not empty and have no address in common. The next insertion
succeeds exactly if its range is not empty and overlaps none of them, and changes nothing if it
fails. `get_device` finds the range of an address, and nothing for an address of no range. -/
theorem bus_routes {calls : List (BusRange × D)}
    (hcalls : ∀ c ∈ calls, c.1.base.toNat + c.1.len.toNat < 2 ^ 64) :
    let bus : Bus D := new.insertAll calls
    ((∀ e ∈ bus.devices.entries, e.1.len ≠ 0) ∧
        bus.devices.entries.Pairwise fun a b => a.1.Disjoint b.1) ∧
      (∀ r dev, r.base.toNat + r.len.toNat < 2 ^ 64 →
        ((bus.insert dev r.base r.len).1 = .ok () ↔
          r.len ≠ 0 ∧ ∀ e ∈ bus.devices.entries, e.1.Disjoint r) ∧
        ((bus.insert dev r.base r.len).1 = .ok () →
          (bus.insert dev r.base r.len).2.devices.entries.Perm ((r, dev) :: bus.devices.entries)) ∧
        ((bus.insert dev r.base r.len).1 ≠ .ok () → (bus.insert dev r.base r.len).2 = bus)) ∧
      (∀ addr offset dev, bus.getDevice addr = some (offset, dev) ↔
        ∃ r, (r, dev) ∈ bus.devices.entries ∧ r.Contains addr ∧ offset = addr - r.base) ∧
      ∀ addr, bus.getDevice addr = none ↔ ∀ e ∈ bus.devices.entries, ¬ e.1.Contains addr := by
  intro bus
  have wf : bus.WellFormed := insertAll_wellFormed new_wellFormed hcalls
  refine ⟨⟨wf.nonempty, wf.disjoint⟩, ?_, fun _ _ _ => getDevice_eq_some wf, ?_⟩
  · intro r dev hend
    rcases insert_cases wf dev hend with ⟨hover, hsame⟩ | ⟨hlen, hdisjoint, hok, hperm⟩
    · rw [hsame]
      refine ⟨⟨nofun, ?_⟩, nofun, fun _ => rfl⟩
      rintro ⟨hlen, hdisjoint⟩
      rcases hover with hzero | ⟨e, he, hd⟩
      · exact absurd hzero hlen
      · exact absurd (hdisjoint e he) hd
    · exact ⟨⟨fun _ => ⟨hlen, hdisjoint⟩, fun _ => hok⟩, fun _ => hperm, fun h => absurd hok h⟩
  · intro addr
    rw [← Option.not_isSome_iff_eq_none, getDevice_isSome wf]
    simp only [not_exists, not_and]

/-- The second call overlaps the first range from before its base. -/
theorem bus_routes_three :
    let calls : List (BusRange × ℕ) := [(⟨0x1000, 0x100⟩, 1), (⟨0xff0, 0x20⟩, 2), (⟨0x2000, 8⟩, 3)]
    (∀ c ∈ calls, c.1.base.toNat + c.1.len.toNat < 2 ^ 64) ∧
      ((new : Bus ℕ).insertAll calls).devices.entries = [(⟨0x1000, 0x100⟩, 1), (⟨0x2000, 8⟩, 3)] ∧
      ∀ addr, ((new : Bus ℕ).insertAll calls).getDevice addr = none ↔
        ∀ e ∈ ((new : Bus ℕ).insertAll calls).devices.entries, ¬ e.1.Contains addr := by
  intro calls
  have hcalls : ∀ c ∈ calls, c.1.base.toNat + c.1.len.toNat < 2 ^ 64 := by decide
  exact ⟨hcalls, by decide, (bus_routes hcalls).2.2.2⟩

end Bus

end Shelter.Devices
