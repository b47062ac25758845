import Shelter.Fs.Mappings
import Shelter.Gpu.Protocol

/-!
# Mappings of blob resources

The commands that create, map and unmap blob resources, in both builds for Linux. A resource keeps
the size that the guest chose and the offset it was last mapped at, and `resource_unmap_blob` covers
that range again. The build without `virgl_resource_map2` only logs that a range does not fit, and
the other one adds two words of the guest for its check; and it answers a command with success when
the resource cannot be exported and nothing was mapped.

`mappings_inside` says for which sequences of commands all mappings lie in the region and all
unmappings cover what was mapped.
-/

namespace Shelter.Gpu

open Virtio Run List Function Option

open Fs (VirtioShmRegion pageSize pageAlign)

/-! ## The renderer's table -/

def virtioGpuBlobMemHost3d : U32 := 2

def rutabagaBlobFlagUseShareable : U32 := 2

def rutabagaBlobFlagUseCrossDevice : U32 := 4

def rutabagaMapCacheMask : U32 := 0x0f

def rutabagaMapAccessMask : U32 := 0xf0

def rutabagaMemHandleTypeOpaqueFd : U32 := 1

def rutabagaMemHandleTypeShm : U32 := 4

inductive RutabagaComponentType
  | rutabaga2D
  | virglRenderer
  | gfxstream
  | crossDomain
  deriving DecidableEq, Repr

def calculateComponent (componentMask : Bytes.Byte) : Option RutabagaComponentType :=
  if componentMask = 1 then some .rutabaga2D
  else if componentMask = 2 then some .virglRenderer
  else if componentMask = 4 then some .gfxstream
  else if componentMask = 8 then some .crossDomain
  else none

/-- What rutabaga knows of a resource; of the handle, its type. -/
structure RutabagaResource where
  handle : Option U32
  blob : Bool
  blobFlags : U32
  mapInfo : Option U32
  componentMask : Bytes.Byte
  deriving DecidableEq, Repr

namespace RutabagaResource

def shareable (r : RutabagaResource) : Bool :=
  r.blobFlags &&& (rutabagaBlobFlagUseShareable ||| rutabagaBlobFlagUseCrossDevice) ≠ 0 || !r.blob

/-- `export_blob` of a resource. The handle is taken out, and only a copy of the handle of a
shareable resource puts it back. `exports` tells whether it could be copied, or was the only one. -/
def exportBlob (r : RutabagaResource) (exports : Bool) : Option U32 × RutabagaResource :=
  match r.handle with
  | none => (none, r)
  | some handleType =>
    if exports then
      (some handleType, if r.shareable then r else { r with handle := none })
    else (none, { r with handle := none })

end RutabagaResource

/-! ## The host -/

structure Mapping where
  addr : U64
  len : U64
  deriving DecidableEq, Repr

/-- `mmap` with `MAP_FIXED`. The address has to begin a page, and the range must not be empty or
leave the address space; and the kernel may refuse for other reasons. -/
def mmapFixed (addr len : U64) (grants : Bool) : Option Mapping :=
  if grants ∧ addr.toNat % pageSize = 0 ∧ len ≠ 0 ∧ addr.toNat + pageAlign len.toNat ≤ 2 ^ 64 then
    some ⟨addr, len⟩
  else none

/-- `PROT_READ` is 1 and `PROT_WRITE` is 2. For another access the caller panics. -/
def protOf (mapInfo : U32) : Option U32 :=
  if mapInfo &&& rutabagaMapAccessMask = 0x10 then some 1
  else if mapInfo &&& rutabagaMapAccessMask = 0x20 then some 2
  else if mapInfo &&& rutabagaMapAccessMask = 0x30 then some 3
  else none

/-- The renderer library, which is not part of the device. `resourceMap2` is what
`virgl_renderer_resource_map2` maps for a resource at an address and a size, if it succeeds. -/
structure VirglRenderer where
  resourceMap2 : U32 → U64 → U64 → Bool → Option Mapping

/-- It honours the address and the flags: on success it has mapped that range and nothing else, as
`mmap` with `MAP_FIXED` does. -/
def VirglRenderer.Honours (v : VirglRenderer) : Prop :=
  ∀ id addr size grants m, v.resourceMap2 id addr size grants = some m →
    mmapFixed addr size true = some m

/-! ## Resources -/

structure VirtioGpuResource where
  size : U64
  shmemOffset : Option U64
  deriving DecidableEq, Repr

inductive Build
  | resourceMap
  | virglResourceMap2
  deriving DecidableEq, Repr

/-- The resources of the device and of rutabaga. -/
structure Resources where
  build : Build
  shm : VirtioShmRegion
  virgl : VirglRenderer
  resources : U32 → Option VirtioGpuResource
  rutabaga : U32 → Option RutabagaResource

/-- A command that did not panic: its result, and the mapping that was made for it. -/
structure Done where
  result : Except GpuResponse GpuResponse
  made : Option Mapping
  table : Resources

/-- The modifier and the planes of a resource, if rutabaga has them. -/
abbrev Query := Option (U64 × List GpuResponsePlaneInfo)

def resultFromQuery : Query → GpuResponse
  | some (modifier, planes) => .okResourcePlaneInfo modifier planes
  | none => .okNoData

/-- What the renderer and the kernel say when a resource is mapped. -/
structure MapAnswers where
  /-- the handle can be copied, or is the only one -/
  exports : Bool
  /-- the mapping succeeds, as far as the range allows it -/
  grants : Bool
  deriving DecidableEq, Repr

namespace Resources

variable (s : Resources) (id : U32)

/-- The iovecs are checked unless the memory is the host's. `created` is the answer of the
component; rutabaga refuses an id that is in use. -/
def resourceCreateBlob (blobMem blobFlags : U32) (size : U64) (iovecs : Bool)
    (created : Option RutabagaResource) (query : Query) : Option Done :=
  if blobFlags &&& virtioGpuBlobFlagCreateGuestHandle ≠ 0 then none
  else if blobMem ≠ virtioGpuBlobMemHost3d ∧ iovecs = false then some ⟨.error .errUnspec, none, s⟩
  else
    match s.rutabaga id, created with
    | none, some r => some ⟨.ok (resultFromQuery query), none,
        { s with
          resources := Function.update s.resources id (some ⟨size, none⟩)
          rutabaga := Function.update s.rutabaga id (some r) }⟩
    | _, _ => some ⟨.error .errRutabaga, none, s⟩

def resourceCreate3d (created : Option RutabagaResource) (query : Query) : Done :=
  match s.rutabaga id, created with
  | none, some r => ⟨.ok (resultFromQuery query), none,
      { s with
        resources := Function.update s.resources id (some ⟨0, none⟩)
        rutabaga := Function.update s.rutabaga id (some r) }⟩
  | _, _ => ⟨.error .errRutabaga, none, s⟩

def unrefResource : Done :=
  match s.resources id with
  | none => ⟨.error .errInvalidResourceId, none, s⟩
  | some _ =>
    let resources := Function.update s.resources id none
    match s.rutabaga id with
    | none => ⟨.error .errRutabaga, none, { s with resources := resources }⟩
    | some _ => ⟨.ok .okNoData, none,
        { s with resources := resources, rutabaga := Function.update s.rutabaga id none }⟩

def exportBlob (exports : Bool) : Option U32 × Resources :=
  match s.rutabaga id with
  | none => (none, s)
  | some r => ((r.exportBlob exports).1,
      { s with rutabaga := Function.update s.rutabaga id (some (r.exportBlob exports).2) })

/-- `Rutabaga::resource_map`. For a resource of the cross-domain component it does nothing and
succeeds; of the others only `virgl_renderer` implements it. -/
def rutabagaResourceMap (addr size : U64) (grants : Bool) : Except GpuResponse (Option Mapping) :=
  match s.rutabaga id with
  | none => .error .errRutabaga
  | some r =>
    match calculateComponent r.componentMask with
    | some .crossDomain => .ok none
    | some .virglRenderer =>
      match s.virgl.resourceMap2 id addr size grants with
      | none => .error .errRutabaga
      | some m => .ok (some m)
    | _ => .error .errRutabaga

/-- The resource has a handle that can be exported, and is not left to the cross-domain
component. -/
def Mappable (exports : Bool) : Prop :=
  exports = true ∧ ∃ r ∈ s.rutabaga id, r.handle.isSome = true ∧
    (r.handle = some rutabagaMemHandleTypeShm ∨
      calculateComponent r.componentMask ≠ some .crossDomain)

def mapDone (r : VirtioGpuResource) (offset : U64) (mapInfo : U32) (made : Option Mapping) : Done :=
  ⟨.ok (.okMapInfo (mapInfo &&& rutabagaMapCacheMask)), made,
    { s with resources :=
        Function.update s.resources id (some { r with shmemOffset := some offset }) }⟩

/-- `resource_map_blob` without `virgl_resource_map2`. It logs that the range does not fit and
goes on. -/
def resourceMapBlob (offset : U64) (a : MapAnswers) : Option Done :=
  match s.resources id with
  | none => some ⟨.error .errInvalidResourceId, none, s⟩
  | some r =>
    match (s.rutabaga id).bind (·.mapInfo) with
    | none => some ⟨.error .errUnspec, none, s⟩
    | some mapInfo =>
      match s.exportBlob id a.exports with
      | (none, s') => some ⟨.error .errUnspec, none, s'⟩
      | (some handleType, s') =>
        if handleType = rutabagaMemHandleTypeOpaqueFd then some ⟨.error .errUnspec, none, s'⟩
        else
          match protOf mapInfo with
          | none => none
          | some _ =>
            match mmapFixed (s.shm.hostAddr + offset) r.size a.grants with
            | none => some ⟨.error .errUnspec, none, s'⟩
            | some m => some (s'.mapDone id r offset mapInfo (some m))

/-- `resource_map_blob` with `virgl_resource_map2`. Without a handle nothing is mapped, and the
command succeeds. -/
def resourceMapBlob2 (offset : U64) (a : MapAnswers) : Option Done :=
  match s.resources id with
  | none => some ⟨.error .errInvalidResourceId, none, s⟩
  | some r =>
    match (s.rutabaga id).bind (·.mapInfo) with
    | none => some ⟨.error .errUnspec, none, s⟩
    | some mapInfo =>
      match protOf mapInfo with
      | none => none
      | some _ =>
        if s.shm.size < offset + r.size then some ⟨.error .errUnspec, none, s⟩
        else
          let addr := s.shm.hostAddr + offset
          match s.exportBlob id a.exports with
          | (none, s') => some (s'.mapDone id r offset mapInfo none)
          | (some handleType, s') =>
            if handleType = rutabagaMemHandleTypeShm then
              match mmapFixed addr r.size a.grants with
              | none => some ⟨.error .errUnspec, none, s'⟩
              | some m => some (s'.mapDone id r offset mapInfo (some m))
            else
              match s'.rutabagaResourceMap id addr r.size a.grants with
              | .error e => some ⟨.error e, none, s'⟩
              | .ok made => some (s'.mapDone id r offset mapInfo made)

def mapBlob (offset : U64) (a : MapAnswers) : Option Done :=
  match s.build with
  | .resourceMap => s.resourceMapBlob id offset a
  | .virglResourceMap2 => s.resourceMapBlob2 id offset a

/-- It maps anonymous memory that cannot be accessed, and panics if that fails. -/
def resourceUnmapBlob (grants : Bool) : Option Done :=
  match s.resources id with
  | none => some ⟨.error .errInvalidResourceId, none, s⟩
  | some r =>
    match r.shmemOffset with
    | none => some ⟨.error .errUnspec, none, s⟩
    | some shmemOffset =>
      match mmapFixed (s.shm.hostAddr + shmemOffset) r.size grants with
      | none => none
      | some m => some ⟨.ok .okNoData, some m, { s with
          resources := Function.update s.resources id (some { r with shmemOffset := none }) }⟩

end Resources

/-! ## Sequences of commands -/

inductive BlobCmd
  | createBlob (id blobMem blobFlags : U32) (size : U64) (iovecs : Bool)
      (created : Option RutabagaResource) (query : Query)
  | create3d (id : U32) (created : Option RutabagaResource) (query : Query)
  | unref (id : U32)
  | map (id : U32) (offset : U64) (a : MapAnswers)
  | unmap (id : U32) (grants : Bool)
  deriving DecidableEq, Repr

/-- An unmapping: what it changed, and what the last successful map of the resource had mapped. -/
structure Unmapping where
  changed : Mapping
  covered : Option Mapping
  deriving DecidableEq, Repr

structure Blobs where
  table : Resources
  /-- all mappings at fixed addresses -/
  mapped : List Mapping
  /-- the mapping of the last map command of a resource that succeeded -/
  covered : U32 → Option Mapping
  unmapped : List Unmapping

namespace Blobs

def new (build : Build) (shm : VirtioShmRegion) (virgl : VirglRenderer) : Blobs where
  table := ⟨build, shm, virgl, fun _ => none, fun _ => none⟩
  mapped := []
  covered := fun _ => none
  unmapped := []

variable (s : Blobs)

/-- The command, `none` if it panics. -/
def exec : BlobCmd → Option Done
  | .createBlob id blobMem blobFlags size iovecs created query =>
    s.table.resourceCreateBlob id blobMem blobFlags size iovecs created query
  | .create3d id created query => some (s.table.resourceCreate3d id created query)
  | .unref id => some (s.table.unrefResource id)
  | .map id offset a => s.table.mapBlob id offset a
  | .unmap id grants => s.table.resourceUnmapBlob id grants

def record (made : Option Mapping) : BlobCmd → Blobs
  | .createBlob id _ _ _ _ _ _ | .create3d id _ _ | .unref id =>
    { s with covered := Function.update s.covered id none }
  | .map id _ _ => { s with covered := Function.update s.covered id made }
  | .unmap id _ =>
    { s with unmapped := s.unmapped ++ made.toList.map fun m => ⟨m, s.covered id⟩ }

def after (c : BlobCmd) (d : Done) : Blobs :=
  let s' := match d.result with
    | .ok _ => s.record d.made c
    | .error _ => s
  { s' with table := d.table, mapped := s.mapped ++ d.made.toList }

def step (c : BlobCmd) : Option Blobs := (s.exec c).map (s.after c)

/-- All mappings lie in the region, and every unmapping changed what the last successful map of its
resource covered. -/
structure Confined (s : Blobs) : Prop where
  inside : ∀ m ∈ s.mapped, s.table.shm.InWindow m.addr m.len
  exact : ∀ u ∈ s.unmapped, u.covered = some u.changed

/-- The range that a command asks for ends in the region, as numbers. -/
def Fits : BlobCmd → Prop
  | .map id offset _ => ∀ r ∈ s.table.resources id,
      offset.toNat + r.size.toNat ≤ s.table.shm.size.toNat
  | _ => True

/-- With `virgl_resource_map2`, a resource that is to be mapped can be. -/
def Maps : BlobCmd → Prop
  | .map id _ a => s.table.build = .virglResourceMap2 → (s.table.resources id).isSome = true →
      s.table.Mappable id a.exports
  | _ => True

def Orderly (c : BlobCmd) : Prop := s.Fits c ∧ s.Maps c

end Blobs

/-! ## How a command ends -/

theorem mmapFixed_eq {addr len : U64} {grants : Bool} {m : Mapping}
    (h : mmapFixed addr len grants = some m) :
    m = ⟨addr, len⟩ ∧ addr.toNat % pageSize = 0 ∧ len ≠ 0 := by
  unfold mmapFixed at h
  split at h
  · next hok => exact ⟨(Option.some.inj h).symm, hok.2.1, hok.2.2.1⟩
  · cases h

namespace Resources

variable {s t : Resources} {id : U32} {offset : U64} {a : MapAnswers} {d : Done}

structure Kept (s t : Resources) : Prop where
  build : t.build = s.build
  shm : t.shm = s.shm
  virgl : t.virgl = s.virgl
  resources : t.resources = s.resources

theorem Kept.refl (s : Resources) : Kept s s := ⟨rfl, rfl, rfl, rfl⟩

theorem kept_exportBlob (s : Resources) (id : U32) (exports : Bool) :
    Kept s (s.exportBlob id exports).2 := by
  unfold exportBlob
  split <;> exact ⟨rfl, rfl, rfl, rfl⟩

/-- The ends of `resource_map_blob`. -/
inductive MapEnd (s : Resources) (id : U32) (offset : U64) (exports : Bool) : Done → Prop
  | failed {e t} : Kept s t → MapEnd s id offset exports ⟨.error e, none, t⟩
  | mapped {r t mapInfo m} {grants : Bool} : Kept s t → s.resources id = some r →
      mmapFixed (s.shm.hostAddr + offset) r.size grants = some m →
      MapEnd s id offset exports (t.mapDone id r offset mapInfo (some m))
  | answered {r t mapInfo} : Kept s t → s.resources id = some r → s.build = .virglResourceMap2 →
      ¬ s.Mappable id exports → MapEnd s id offset exports (t.mapDone id r offset mapInfo none)

theorem resourceMapBlob_end (h : s.resourceMapBlob id offset a = some d) :
    MapEnd s id offset a.exports d := by
  unfold resourceMapBlob at h
  split at h
  · cases h
    exact .failed (.refl s)
  next r hr =>
  split at h
  · cases h
    exact .failed (.refl s)
  next mapInfo _ =>
  have hkept := kept_exportBlob s id a.exports
  generalize s.exportBlob id a.exports = x at h hkept
  obtain ⟨_ | handleType, s'⟩ := x
  · cases h
    exact .failed hkept
  simp only at h
  split_ifs at h with hopaque
  · cases h
    exact .failed hkept
  split at h
  · cases h
  split at h
  · cases h
    exact .failed hkept
  next hm =>
  cases h
  exact .mapped hkept hr hm

variable {size : U64} {grants : Bool}

theorem exportBlob_none {exports : Bool} {t : Resources}
    (h : s.exportBlob id exports = (none, t)) : ¬ s.Mappable id exports := by
  rintro ⟨rfl, r, hr, hhandle, -⟩
  obtain ⟨handleType, hhandle⟩ := isSome_iff_exists.mp hhandle
  simp [exportBlob, Option.mem_def.mp hr, RutabagaResource.exportBlob, hhandle] at h

theorem exportBlob_some {exports : Bool} {handleType : U32} {t : Resources}
    (h : s.exportBlob id exports = (some handleType, t)) :
    ∃ r r', s.rutabaga id = some r ∧ r.handle = some handleType ∧ t.rutabaga id = some r' ∧
      r'.componentMask = r.componentMask := by
  unfold exportBlob at h
  split at h
  · cases h
  next r hr =>
  obtain ⟨hhandle, rfl⟩ := Prod.mk.injEq .. ▸ h
  refine ⟨r, _, hr, ?_, update_self .., ?_⟩
  · unfold RutabagaResource.exportBlob at hhandle
    rcases hr' : r.handle with _ | handleType' <;> rw [hr'] at hhandle
    · cases hhandle
    · cases exports with
      | true => exact hhandle
      | false => cases hhandle
  · unfold RutabagaResource.exportBlob
    split
    · rfl
    · split_ifs <;> rfl

theorem rutabagaResourceMap_ok {addr : U64} {made : Option Mapping}
    (h : s.rutabagaResourceMap id addr size grants = .ok made) :
    (made = none ∧ ∃ r, s.rutabaga id = some r ∧
      calculateComponent r.componentMask = some .crossDomain) ∨
    ∃ m, made = some m ∧ s.virgl.resourceMap2 id addr size grants = some m := by
  unfold rutabagaResourceMap at h
  split at h
  · cases h
  next r hr =>
  split at h
  · next hcross =>
    cases h
    exact .inl ⟨rfl, r, hr, hcross⟩
  · split at h
    · cases h
    · next hm =>
      cases h
      exact .inr ⟨_, rfl, hm⟩
  · cases h

theorem resourceMapBlob2_end (hbuild : s.build = .virglResourceMap2) (hvirgl : s.virgl.Honours)
    (h : s.resourceMapBlob2 id offset a = some d) : MapEnd s id offset a.exports d := by
  unfold resourceMapBlob2 at h
  split at h
  · cases h
    exact .failed (.refl s)
  next r hr =>
  split at h
  · cases h
    exact .failed (.refl s)
  next mapInfo _ =>
  split at h
  · cases h
  split_ifs at h with hfits
  · cases h
    exact .failed (.refl s)
  have hkept := kept_exportBlob s id a.exports
  rcases hexport : s.exportBlob id a.exports with ⟨_ | handleType, s'⟩ <;>
    simp only [hexport] at h hkept
  · cases h
    exact .answered hkept hr hbuild (exportBlob_none hexport)
  split_ifs at h with hshm
  · split at h
    · cases h
      exact .failed hkept
    next hm =>
    cases h
    exact .mapped hkept hr hm
  · split at h
    · cases h
      exact .failed hkept
    next made hmade =>
    cases h
    obtain ⟨rfl, r', hr', hcross⟩ | ⟨m, rfl, hm⟩ := rutabagaResourceMap_ok hmade
    · refine .answered hkept hr hbuild ?_
      obtain ⟨r₁, r₂, h₁, hhandle, h₂, hmask⟩ := exportBlob_some hexport
      cases h₂.symm.trans hr'
      rw [hmask] at hcross
      rintro ⟨-, _, hr₁, -, hor⟩
      cases h₁.symm.trans hr₁
      rw [hhandle, Option.some.injEq] at hor
      exact hor.elim hshm fun hne => hne hcross
    · rw [hkept.virgl] at hm
      exact .mapped hkept hr (hvirgl _ _ _ _ _ hm)

theorem mapBlob_end (hvirgl : s.virgl.Honours) (h : s.mapBlob id offset a = some d) :
    MapEnd s id offset a.exports d := by
  unfold mapBlob at h
  split at h
  · exact resourceMapBlob_end h
  · next hbuild => exact resourceMapBlob2_end hbuild hvirgl h

/-- The ends of `resource_unmap_blob`. -/
inductive UnmapEnd (s : Resources) (id : U32) : Done → Prop
  | failed {e} : UnmapEnd s id ⟨.error e, none, s⟩
  | unmapped {r shmemOffset} : s.resources id = some r → r.shmemOffset = some shmemOffset →
      UnmapEnd s id ⟨.ok .okNoData, some ⟨s.shm.hostAddr + shmemOffset, r.size⟩, { s with
        resources := Function.update s.resources id (some { r with shmemOffset := none }) }⟩

theorem resourceUnmapBlob_end (h : s.resourceUnmapBlob id grants = some d) : UnmapEnd s id d := by
  unfold resourceUnmapBlob at h
  split at h
  · cases h
    exact .failed
  next r hr =>
  split at h
  · cases h
    exact .failed
  next shmemOffset hoffset =>
  split at h
  · cases h
  next m hm =>
  obtain ⟨rfl, -, -⟩ := mmapFixed_eq hm
  cases h
  exact .unmapped hr hoffset

/-- The ends of the commands that make or drop a resource: it is not mapped. -/
inductive TableEnd (s : Resources) (id : U32) : Done → Prop
  | failed {e} : TableEnd s id ⟨.error e, none, s⟩
  | set {result new rutabaga} : (∀ r, new = some r → r.shmemOffset = none) →
      TableEnd s id ⟨result, none,
        { s with resources := Function.update s.resources id new, rutabaga := rutabaga }⟩

theorem resourceCreateBlob_end {blobMem blobFlags : U32} {iovecs : Bool}
    {created : Option RutabagaResource} {query : Query}
    (h : s.resourceCreateBlob id blobMem blobFlags size iovecs created query = some d) :
    TableEnd s id d := by
  unfold resourceCreateBlob at h
  split at h
  · cases h
  split at h
  · cases h
    exact .failed
  split at h
  · cases h
    refine .set fun r hr => ?_
    cases hr
    rfl
  · cases h
    exact .failed

theorem resourceCreate3d_end (s : Resources) (id : U32) (created : Option RutabagaResource)
    (query : Query) : TableEnd s id (s.resourceCreate3d id created query) := by
  unfold resourceCreate3d
  split
  · refine .set fun r hr => ?_
    cases hr
    rfl
  · exact .failed

theorem unrefResource_end (s : Resources) (id : U32) : TableEnd s id (s.unrefResource id) := by
  unfold unrefResource
  split
  · exact .failed
  · split
    all_goals exact .set fun r hr => by cases hr

end Resources

/-! ## Runs of commands -/

namespace Blobs

/-- The ends of a command. -/
inductive Ends (s : Blobs) : BlobCmd → Done → Prop
  | table {c d id} : s.table.TableEnd id d →
      s.record none c = { s with covered := Function.update s.covered id none } → Ends s c d
  | map {d id offset a} : s.table.MapEnd id offset a.exports d → Ends s (.map id offset a) d
  | unmap {d id grants} : s.table.UnmapEnd id d → Ends s (.unmap id grants) d

variable {s s' : Blobs} {c : BlobCmd}

/-- A resource with an offset was mapped there by the last map that succeeded, and unmappings were
exact. -/
structure Inv (s : Blobs) : Prop where
  placed : s.table.shm.Placed
  honours : s.table.virgl.Honours
  offset : ∀ id r shmemOffset, s.table.resources id = some r → r.shmemOffset = some shmemOffset →
    s.covered id = some ⟨s.table.shm.hostAddr + shmemOffset, r.size⟩ ∧
      ⟨s.table.shm.hostAddr + shmemOffset, r.size⟩ ∈ s.mapped
  exact : ∀ u ∈ s.unmapped, u.covered = some u.changed

theorem step_eq_some : s.step c = some s' ↔ ∃ d, s.exec c = some d ∧ s.after c d = s' :=
  map_eq_some_iff

variable {t : Resources} {id : U32} {d : Done} {offset : U64} {a : MapAnswers} {grants : Bool}

theorem after_error {e : GpuResponse} : s.after c ⟨.error e, none, t⟩ = { s with table := t } := by
  rw [after, toList_none, append_nil]

theorem inv_kept (h : s.Inv) (ht : s.table.Kept t) : Inv { s with table := t } := by
  obtain ⟨-, hshm, hvirgl, hres⟩ := ht
  refine ⟨hshm ▸ h.placed, hvirgl ▸ h.honours, ?_, h.exact⟩
  rw [hshm, hres]
  exact h.offset

/-- A resource that is set without an offset. -/
theorem inv_set (h : s.Inv) {new : Option VirtioGpuResource}
    (hnew : ∀ r, new = some r → r.shmemOffset = none) (hshm : s'.table.shm = s.table.shm)
    (hvirgl : s'.table.virgl = s.table.virgl)
    (hres : s'.table.resources = Function.update s.table.resources id new)
    (hcovered : ∀ i ≠ id, s'.covered i = s.covered i) (hmapped : s.mapped ⊆ s'.mapped)
    (hexact : ∀ u ∈ s'.unmapped, u.covered = some u.changed) : s'.Inv := by
  refine ⟨hshm ▸ h.placed, hvirgl ▸ h.honours, fun i r shmemOffset hr ho => ?_, hexact⟩
  rw [hres] at hr
  by_cases hi : i = id
  · rw [hi, update_self] at hr
    cases (hnew r hr).symm.trans ho
  · rw [update_of_ne hi] at hr
    rw [hcovered i hi, hshm]
    exact (h.offset i r shmemOffset hr ho).imp_right fun hc => hmapped hc

theorem inv_table (h : s.Inv) (hd : s.table.TableEnd id d)
    (hc : s.record none c = { s with covered := Function.update s.covered id none }) :
    (s.after c d).Inv := by
  cases hd with
  | failed =>
    rw [after_error]
    exact h
  | @set result new rutabaga hnew =>
    refine inv_set h hnew rfl rfl rfl (fun i hi => ?_) (subset_append_left _ _) ?_
    · cases result with
      | error e => rfl
      | ok resp =>
        simp only [after, hc]
        exact update_of_ne hi _ _
    · cases result with
      | error e => exact h.exact
      | ok resp =>
        simp only [after, hc]
        exact h.exact

theorem inv_mapDone (h : s.Inv) (ht : s.table.Kept t) {r : VirtioGpuResource} {mapInfo : U32} :
    (s.after (.map id offset a) (t.mapDone id r offset mapInfo
      (some ⟨s.table.shm.hostAddr + offset, r.size⟩))).Inv := by
  obtain ⟨-, hshm, hvirgl, hres⟩ := ht
  refine ⟨?_, ?_, fun i r' shmemOffset hr ho => ?_, h.exact⟩
  · simp only [after, Resources.mapDone]
    rw [hshm]
    exact h.placed
  · simp only [after, Resources.mapDone]
    rw [hvirgl]
    exact h.honours
  simp only [after, record, Resources.mapDone] at hr ⊢
  rw [hshm]
  by_cases hi : i = id
  · subst hi
    rw [update_self] at hr ⊢
    cases hr
    cases ho
    exact ⟨rfl, mem_append_right _ (mem_singleton_self _)⟩
  · rw [update_of_ne hi] at hr ⊢
    rw [hres] at hr
    exact (h.offset i r' shmemOffset hr ho).imp_right fun hc => mem_append_left _ hc

theorem inv_map (h : s.Inv) (hm : s.Maps (.map id offset a))
    (hd : s.table.MapEnd id offset a.exports d) : (s.after (.map id offset a) d).Inv := by
  cases hd with
  | failed ht =>
    rw [after_error]
    exact inv_kept h ht
  | mapped ht hr hmap =>
    obtain ⟨rfl, -, -⟩ := mmapFixed_eq hmap
    exact inv_mapDone h ht
  | answered _ hr hbuild hnot => exact absurd (hm hbuild (hr ▸ rfl)) hnot

theorem inv_unmap (h : s.Inv) (hd : s.table.UnmapEnd id d) :
    (s.after (.unmap id grants) d).Inv := by
  cases hd with
  | failed =>
    rw [after_error]
    exact h
  | unmapped hr ho =>
    refine inv_set h (by rintro r ⟨⟩; rfl) rfl rfl rfl (fun _ _ => rfl) (subset_append_left _ _) ?_
    -- the resource was mapped at its offset by the last map
    exact forall_mem_append.mpr ⟨h.exact, forall_mem_singleton.mpr (h.offset id _ _ hr ho).1⟩

theorem exec_ends (hvirgl : s.table.virgl.Honours) (h : s.exec c = some d) : Ends s c d := by
  cases c with
  | createBlob id => exact .table (Resources.resourceCreateBlob_end h) rfl
  | create3d id created query =>
    cases h
    exact .table (s.table.resourceCreate3d_end id created query) rfl
  | unref id =>
    cases h
    exact .table (s.table.unrefResource_end id) rfl
  | map => exact .map (Resources.mapBlob_end hvirgl h)
  | unmap => exact .unmap (Resources.resourceUnmapBlob_end h)

theorem inv_step (h : s.Inv) (hm : s.Maps c) (hs : s.step c = some s') : s'.Inv := by
  obtain ⟨d, hd, rfl⟩ := step_eq_some.mp hs
  cases exec_ends h.honours hd with
  | table hend hc => exact inv_table h hend hc
  | map hend => exact inv_map h hm hend
  | unmap hend => exact inv_unmap h hend

/-- The mapping that a command makes, if it makes one, lies in the region. -/
theorem made_inside (h : s.Inv) (hf : s.Fits c)
    (hin : ∀ m ∈ s.mapped, s.table.shm.InWindow m.addr m.len) (hd : s.exec c = some d) :
    d.table.shm = s.table.shm ∧ ∀ m ∈ d.made, s.table.shm.InWindow m.addr m.len := by
  cases exec_ends h.honours hd with
  | table hend hc => cases hend <;> exact ⟨rfl, nofun⟩
  | map hend =>
    cases hend with
    | failed ht => exact ⟨ht.shm, nofun⟩
    | answered ht => exact ⟨ht.shm, nofun⟩
    | mapped ht hr hm =>
      obtain ⟨rfl, haligned, hlen⟩ := mmapFixed_eq hm
      refine ⟨ht.shm, ?_⟩
      rintro _ ⟨⟩
      exact (Fs.inWindow_iff_le h.placed haligned hlen).mpr (hf _ hr)
  | unmap hend =>
    cases hend with
    | failed => exact ⟨rfl, nofun⟩
    | unmapped hr ho =>
      refine ⟨rfl, ?_⟩
      rintro _ ⟨⟩
      exact hin _ (h.offset _ _ _ hr ho).2

theorem inside_step (h : s.Inv) (hf : s.Fits c)
    (hin : ∀ m ∈ s.mapped, s.table.shm.InWindow m.addr m.len) (hs : s.step c = some s') :
    ∀ m ∈ s'.mapped, s'.table.shm.InWindow m.addr m.len := by
  obtain ⟨d, hd, rfl⟩ := step_eq_some.mp hs
  obtain ⟨hshm, hmade⟩ := made_inside h hf hin hd
  show ∀ m ∈ s.mapped ++ d.made.toList, d.table.shm.InWindow m.addr m.len
  rw [hshm]
  exact forall_mem_append.mpr ⟨hin, fun m hm => hmade m (mem_toList.mp hm)⟩

theorem inv_new (build : Build) {shm : VirtioShmRegion} (hshm : shm.Placed) {virgl : VirglRenderer}
    (hvirgl : virgl.Honours) : (new build shm virgl).Inv :=
  ⟨hshm, hvirgl, nofun, nofun⟩

/-- **Blob mappings.** After every sequence of commands for resources, of either build, all mappings
lie in the region and every unmapping covered exactly what the last successful map of the resource
covered, provided that no map command leaves the region when offset and size are added as numbers,
and, with `virgl_resource_map2`, that what is to be mapped can be. -/
theorem mappings_inside (build : Build) {shm : VirtioShmRegion} (hshm : shm.Placed)
    {virgl : VirglRenderer} (hvirgl : virgl.Honours) {cmds : List BlobCmd} {s' : Blobs}
    (ho : Along step Orderly (new build shm virgl) cmds)
    (hr : run step (new build shm virgl) cmds = some s') : s'.Confined := by
  obtain ⟨hinv, hin⟩ := along_invariant
    (P := fun s => s.Inv ∧ ∀ m ∈ s.mapped, s.table.shm.InWindow m.addr m.len)
    (fun s c s' h ho hs => ⟨inv_step h.1 ho.2 hs, inside_step h.1 ho.1 h.2 hs⟩)
    ⟨inv_new build hshm hvirgl, nofun⟩ ho hr
  exact ⟨hin, hinv.exact⟩

theorem exec_build (hvirgl : s.table.virgl.Honours) (h : s.exec c = some d) :
    d.table.build = s.table.build := by
  cases exec_ends hvirgl h with
  | table hend _ => cases hend <;> rfl
  | map hend =>
    cases hend with
    | failed ht | mapped ht | answered ht => exact ht.build
  | unmap hend => cases hend <;> rfl

/-- Without `virgl_resource_map2` a map that succeeds has mapped the resource, and unmappings are
exact whatever the guest asks for. -/
theorem unmappings_exact {shm : VirtioShmRegion} (hshm : shm.Placed) {virgl : VirglRenderer}
    (hvirgl : virgl.Honours) {cmds : List BlobCmd} {s' : Blobs}
    (hr : run step (new .resourceMap shm virgl) cmds = some s') :
    ∀ u ∈ s'.unmapped, u.covered = some u.changed := by
  refine (run_invariant (P := fun s : Blobs => s.Inv ∧ s.table.build = .resourceMap)
    (fun s c s' h hs => ?_) ⟨inv_new .resourceMap hshm hvirgl, rfl⟩ hr).1.exact
  have hm : s.Maps c := by
    cases c with
    | map => exact fun hbuild => nomatch h.2.symm.trans hbuild
    | createBlob | create3d | unref | unmap => trivial
  refine ⟨inv_step h.1 hm hs, ?_⟩
  obtain ⟨d, hd, rfl⟩ := step_eq_some.mp hs
  exact (exec_build h.1.honours hd).trans h.2

/-! ## Runs -/

instance : Decidable s.Confined :=
  decidable_of_iff ((∀ m ∈ s.mapped, s.table.shm.hostAddr.toNat ≤ m.addr.toNat ∧
      m.addr.toNat + pageAlign m.len.toNat ≤ s.table.shm.hostAddr.toNat + s.table.shm.size.toNat) ∧
    ∀ u ∈ s.unmapped, u.covered = some u.changed)
    ⟨fun h => ⟨h.1, h.2⟩, fun h => ⟨h.1, h.2⟩⟩

instance : DecidablePred s.Orderly := fun c => by
  cases c <;> dsimp only [Orderly, Fits, Maps, Resources.Mappable] <;> infer_instance

def smallRegion : VirtioShmRegion := ⟨0x10000, 0x4000⟩

theorem smallRegion_placed : smallRegion.Placed := ⟨by decide, by decide, by decide⟩

/-- A blob that can be mapped and not shared, in shared memory. -/
def ownBlob : RutabagaResource := ⟨some rutabagaMemHandleTypeShm, true, 1, some 0x31, 2⟩

def sharedBlob : RutabagaResource := { ownBlob with blobFlags := 3 }

def create (id : U32) (size : U64) (r : RutabagaResource) : BlobCmd :=
  .createBlob id virtioGpuBlobMemHost3d r.blobFlags size false (some r) none

def mapAt (id : U32) (offset : U64) : BlobCmd := .map id offset ⟨true, true⟩

def twoBlobs : List BlobCmd :=
  [create 1 0x1800 sharedBlob, create 2 0x1000 ownBlob, mapAt 1 0, mapAt 2 0x3000, mapAt 1 0x1000,
    .unmap 2 true, .unmap 1 true, .unmap 1 true]

/-- A renderer that maps what it is asked for. -/
def plainVirgl : VirglRenderer := ⟨fun _ addr size grants => mmapFixed addr size grants⟩

theorem plainVirgl_honours : plainVirgl.Honours := by
  intro id addr size grants m h
  cases grants with
  | true => exact h
  | false => cases h

theorem mappings_inside_twoBlobs :
    ∃ s, run step (new .virglResourceMap2 smallRegion plainVirgl) twoBlobs = some s ∧
      s.mapped = [⟨0x10000, 0x1800⟩, ⟨0x13000, 0x1000⟩, ⟨0x11000, 0x1800⟩, ⟨0x13000, 0x1000⟩,
        ⟨0x11000, 0x1800⟩] ∧ s.Confined := by
  obtain ⟨s, hrun, hmapped⟩ : ∃ s,
      run step (new .virglResourceMap2 smallRegion plainVirgl) twoBlobs = some s ∧
      s.mapped = [⟨0x10000, 0x1800⟩, ⟨0x13000, 0x1000⟩, ⟨0x11000, 0x1800⟩, ⟨0x13000, 0x1000⟩,
        ⟨0x11000, 0x1800⟩] := by decide +kernel
  exact ⟨s, hrun, hmapped,
    mappings_inside _ smallRegion_placed plainVirgl_honours (by decide +kernel) hrun⟩

/-- Without `virgl_resource_map2` a resource is mapped behind the region. With it, an offset near
the end of the numbers passes the check and the mapping begins before the region; and a resource
that cannot be shared is mapped a second time in the answer only, and what is unmapped afterwards is
not what was mapped. -/
theorem mappings_outside :
    (∃ s ∈ run step (new .resourceMap smallRegion plainVirgl)
        [create 1 0x1000 sharedBlob, mapAt 1 0x10000],
      s.mapped = [⟨0x20000, 0x1000⟩] ∧ ¬ s.Confined) ∧
    (∃ s ∈ run step (new .virglResourceMap2 smallRegion plainVirgl)
        [create 1 0x3000 sharedBlob, mapAt 1 0xffffffffffffe000],
      s.mapped = [⟨0xe000, 0x3000⟩] ∧ ¬ s.Confined) ∧
    (∃ s ∈ run step (new .virglResourceMap2 smallRegion plainVirgl)
        [create 1 0x1000 ownBlob, mapAt 1 0, mapAt 1 0x2000, .unmap 1 true],
      s.mapped = [⟨0x10000, 0x1000⟩, ⟨0x12000, 0x1000⟩] ∧
      s.unmapped = [⟨⟨0x12000, 0x1000⟩, none⟩] ∧ ¬ s.Confined) := by
  refine ⟨?_, ?_, ?_⟩ <;> decide +kernel

end Blobs

end Shelter.Gpu
