import Shelter.Fs.Dirents
import Shelter.Fs.Getdents

/-!
# READDIR from the kernel to the driver

`do_readdir` takes the records of `getdents64` apart, and `add_dirent` puts the entries together
again in the format of FUSE, until one does not fit. `readdir_decodes` says that the driver decodes
the first entries of the directory, and as many as the size that it asked for has room for.
-/

open Bytes

namespace Shelter.Fs.Server

open Virtio List Prog Passthrough Dirents

variable {M : Type} [GuestMemory M] [LawfulGuestMemory M] {max : U32} {c c₁ : Cursor M}

/-- The entries are written one after the other, and the one after them does not fit. -/
theorem feed_fills (hc : c.w.Usable c.mem) (hstart : c.w.bytesWritten = 0)
    (hroom : max.toNat ≤ c.w.addrs.length) (s : Served) (records : List DirRecord)
    {accepted : List Call} (h : Fills max c ⟨c₁, accepted⟩) :
    ∃ k c', feed (fun d => onEntries (addDirent max d none)) (records.map DirRecord.entry) (s, c₁) =
        some (.ok (), s, c') ∧
      Fills max c ⟨c', accepted ++ (records.take k).map fun r => ⟨r.entry, none⟩⟩ ∧
      ∀ r, records[k]? = some r → max.toNat < c'.w.bytesWritten + direntLen r.name false := by
  induction records generalizing c₁ accepted with
  | nil => exact ⟨0, c₁, rfl, by simpa using h, nofun⟩
  | cons r records ih =>
    have hroom' : max.toNat - c₁.w.bytesWritten ≤ c₁.w.addrs.length := by
      rw [h.put.after.addrs, h.put.after.written, hstart, length_drop]
      omega
    have hon {out c₂} (he : addDirent max r.entry none c₁ = some (out, c₂)) :
        onEntries (addDirent max r.entry none) (s, c₁) = some (out, s, c₂) := by
      rw [onEntries, zoom, he]
      rfl
    obtain ⟨out, c₂, he, -, hfills⟩ := filling_step hc hstart hroom h ⟨r.entry, none⟩
    rcases addDirent_spec (h.put.usable hc) max hroom' ⟨r.entry, none⟩ with ⟨hname, -⟩ |
        ⟨hle, he'⟩ | ⟨_, -, -, he', -⟩
    · have hlen : 2 ^ 32 ≤ r.name.length := hname
      have := r.fits
      omega
    · refine ⟨0, c₁, ?_, by simpa using h, ?_⟩
      · rw [map_cons, feed, bind_ok (hon he')]
        rfl
      · rintro _ ⟨⟩
        rw [Call.length_toBytes] at hle
        change max.toNat - c₁.w.bytesWritten < direntLen r.name false at hle
        omega
    · cases he.symm.trans he'
      have hpos := length_pos_iff.mpr (Call.toBytes_ne_nil ⟨r.entry, none⟩)
      rw [if_pos (by simpa [accepts] using hpos.ne')] at hfills
      obtain ⟨k, c', hrun, hfills, hnext⟩ := ih hfills
      refine ⟨k + 1, c', ?_, by simpa using hfills, hnext⟩
      rw [map_cons, feed, bind_ok (hon he'), if_neg hpos.ne', hrun]

/-- **Reading a directory.** Of every listing of well-formed records, the bytes that a `READDIR`
leaves in the buffers of the driver are decoded to the first entries, and the next one, if there is
one, would exceed the size that was asked for. -/
theorem readdir_decodes {host : Host} {inode handle offset : U64} {s s' : Served}
    {records : List DirRecord} (hmax : max ≠ 0)
    (hget : getdents host inode handle max offset s = some (.ok (DirRecord.listing records), s'))
    (hc : c.w.Usable c.mem) (hstart : c.w.bytesWritten = 0) (hroom : max.toNat ≤ c.w.addrs.length)
    (hnodup : c.w.addrs.Nodup) :
    ∃ k c', doReaddirBytes host inode handle max offset (fun d => onEntries (addDirent max d none))
        (s, c) = some (.ok (), s', c') ∧
      Decoder.decodeAll (fun _ => direntOut false)
          (contents c'.mem (c.w.addrs.take c'.w.bytesWritten)) =
        some ((records.take k).map fun r => (none, r.entry)) ∧
      c'.w.bytesWritten ≤ max.toNat ∧
      ∀ r, records[k]? = some r → max.toNat < c'.w.bytesWritten + direntLen r.name false := by
  have hinit : Fills max c ⟨c, []⟩ :=
    ⟨Cursor.put_nil hc, nofun, hstart.trans_le (Nat.zero_le _)⟩
  obtain ⟨k, c', hrun, hfills, hnext⟩ := feed_fills hc hstart hroom s' records hinit
  refine ⟨k, c', (hands_all records _ host inode handle max offset _ s s' c hmax hget).trans hrun,
    ?_, hfills.limit, hnext⟩
  rw [nil_append] at hfills
  have hwritten := hfills.put.after.written
  rw [hstart, Nat.zero_add] at hwritten
  rw [hwritten, (hfills.put.filled.stored (hnodup.sublist (take_sublist _ _))).bytes]
  change _ = some ((records.take k).map (Call.told ∘ fun r => ⟨r.entry, none⟩))
  rw [← map_map]
  refine Decoder.decodeAll_flatMap (fun call _ => call.toBytes_ne_nil) fun i call hcall => ?_
  obtain ⟨r, -, rfl⟩ := mem_map.mp (mem_of_getElem? hcall)
  exact reads_direntOut (hfills.names _ (mem_of_getElem? hcall))

/-- The buffers of the driver have room for the record, so it is there. -/
theorem readdir_decodes_hidden : ∃ s', ∃ c' : Cursor FlatMemory,
    doReaddirBytes (listingHost [hiddenRecord]) rootId 1 40 0
        (fun d => onEntries (addDirent 40 d none)) (openDirectory, smallCursor) =
      some (.ok (), s', c') ∧
    Decoder.decodeAll (fun _ => direntOut false)
        (contents c'.mem (smallCursor.w.addrs.take c'.w.bytesWritten)) =
      some [(none, hiddenRecord.entry)] := by
  obtain ⟨s', hget⟩ : ∃ s', getdents (listingHost [hiddenRecord]) rootId 1 40 0 openDirectory =
    some (.ok (DirRecord.listing [hiddenRecord]), s') := ⟨_, rfl⟩
  obtain ⟨k, c', hrun, hdecode, -, hnext⟩ := readdir_decodes (by decide) hget smallCursor_usable rfl
    (by decide) (by decide)
  refine ⟨s', c', hrun, ?_⟩
  cases k with
  | succ k => simpa using hdecode
  | zero =>
    -- nothing is decoded only if nothing was written, but then the record had room
    have hnone := congrArg length (Decoder.eq_nil_of_decodeAll hdecode)
    have hroom : smallCursor.w.addrs.length = 40 := by decide
    have hlong : 40 < c'.w.bytesWritten + 32 := hnext hiddenRecord rfl
    rw [length_contents, length_take, hroom, length_nil] at hnone
    omega

end Shelter.Fs.Server
