import Shelter.Virtio.Segments
import Shelter.Virtio.BlockWorker

/-!
# What a block request leaves for the driver

The driver of a block device expects one used element for each chain, the status in the last
writable byte of the chain, and a used length that counts all bytes that were written, the status
byte with them. The worker puts the status wherever its writer stands after the data, and reports
the count of the data alone. `completed_iff` says which requests come out right all the same.
-/

open Bytes

namespace Shelter.Virtio

open Writer Queue DescriptorChainConsumer List

variable {M D : Type} [GuestMemory M]

/-- The chain was put in the used ring: there is one more element, and it names the chain. -/
structure Returned (head : DescriptorChain) (len : U32) (s s' : ServiceState M D) : Prop where
  nextUsed : s'.queue.nextUsed = s.queue.nextUsed + 1
  idx : s'.queue.usedIdxField s'.mem = s.queue.nextUsed + 1
  cell : s'.queue.usedCell s'.mem (s.queue.nextUsed % s.queue.size).toNat =
    ⟨head.index.setWidth 32, len⟩

theorem Queue.needsNotification_nextUsed {q q' : Queue} {m : M} {b : Bool}
    (h : q.needsNotification m = .ok (b, q')) : q'.nextUsed = q.nextUsed := by
  unfold Queue.needsNotification at h
  split_ifs at h
  · split at h
    · cases h
    · simp only [Except.ok.injEq, Prod.mk.injEq] at h
      rw [← h.2]
  · simp only [Except.ok.injEq, Prod.mk.injEq] at h
    rw [← h.2]

theorem addUsedAndNotify_returned [LawfulGuestMemory M] {s : ServiceState M D}
    (hr : s.queue.RingsMapped s.mem) {head : DescriptorChain} (hh : head.index < s.queue.size)
    (len : U32) : ∃ s', addUsedAndNotify s head.index len = some s' ∧ Returned head len s s' := by
  obtain ⟨m', hadd, hidx, hcell, -⟩ := addUsed_spec hr hh len
  have hlayout := (addUsed_frame hr head.index len).1
  rw [hadd] at hlayout
  obtain ⟨b, q, hn⟩ := needsNotification_ok (hr.congr (.bumpUsed _) hlayout)
  obtain ⟨hcfg, -⟩ := needsNotification_config hn
  have hused : q.usedRing = s.queue.usedRing := hcfg.usedRing
  refine ⟨{ s with queue := q, mem := m' }, ?_, ?_, ?_, ?_⟩
  · unfold addUsedAndNotify
    simp only [hadd, hn]
  · exact needsNotification_nextUsed hn
  · rw [← hidx]
    unfold Queue.usedIdxField
    rw [hused]
  · rw [← hcell]
    unfold Queue.usedCell
    rw [hused]

namespace BlockWorker

/-- The header, the rest of the reader and the writer of a chain, if it gets as far as that. -/
def request (m : M) (head : DescriptorChain) : Option (RequestHeader × Reader × Writer) :=
  match Reader.new m head with
  | .error _ => none
  | .ok reader =>
    match Writer.new m head with
    | .error _ => none
    | .ok writer =>
      match reader.readObj m 16 with
      | (_, .error _, _) => none
      | (header, .ok _, reader') => some (.ofBytes header.data, reader', writer)

variable {disk : Disk D} {head : DescriptorChain} {s : ServiceState M D} {header : RequestHeader}
  {reader : Reader} {writer : Writer} {m : M}

theorem handle_eq (disk : Disk D) (head : DescriptorChain) (s : ServiceState M D) :
    handle disk head s = match request s.mem head with
      | none => some s
      | some (header, reader, writer) =>
        let out := processRequest disk header reader writer s.mem s.dev
        let status := statusAndLen out.result
        addUsedAndNotify
          { s with mem := (out.writer.writeAll out.mem [status.1]).1.mem, dev := out.dev }
          head.index (BitVec.ofNat 32 status.2) := by
  unfold handle request
  cases Reader.new s.mem head with
  | error => rfl
  | ok r =>
    cases Writer.new s.mem head with
    | error => rfl
    | ok w =>
      dsimp only
      rcases r.readObj s.mem 16 with ⟨data, e | _, r'⟩ <;> rfl

theorem request_some (h : request m head = some (header, reader, writer)) :
    ∃ r data, Reader.new m head = .ok r ∧ r.readObj m 16 = (data, .ok (), reader) ∧
      Writer.new m head = .ok writer := by
  unfold request at h
  rcases hr : Reader.new m head with e | r <;> simp only [hr] at h
  · cases h
  rcases hw : Writer.new m head with e | w <;> simp only [hw] at h
  · cases h
  rcases hobj : r.readObj m 16 with ⟨data, e | _, r'⟩ <;> simp only [hobj] at h
  · cases h
  · cases h
    exact ⟨r, data, rfl, hobj, rfl⟩

theorem request_writer [LawfulGuestMemory M] (h : request m head = some (header, reader, writer)) :
    writer.Usable m ∧ writer.bytesWritten = 0 := by
  obtain ⟨-, -, -, -, hw⟩ := request_some h
  exact new_usable hw

theorem request_reader [LawfulGuestMemory M] (h : request m head = some (header, reader, writer)) :
    reader.buffer.Counted := by
  obtain ⟨r, data, hr, hobj, -⟩ := request_some h
  have hc := Reader.new_counted hr
  by_cases hlen : 16 ≤ r.addrs.length
  · obtain ⟨ranges, r', hobj', hafter⟩ := Reader.readObj_ok hc m hlen
    obtain rfl : r' = reader := congrArg (fun o => o.2.2) (hobj'.symm.trans hobj)
    exact hafter.counted
  · have hshort := Reader.readObj_short hc m (Nat.not_le.mp hlen)
    rw [hobj] at hshort
    cases hshort

/-- What a file does: it delivers as many bytes as it answers and no more than there is room for,
none if it fails, and takes no more than it is given. -/
structure Disk.Lawful (disk : Disk D) : Prop where
  readAt_ok : ∀ d off bufs n, (disk.readAt d off bufs).2 = .ok n →
    (disk.readAt d off bufs).1.length = n ∧ n ≤ (addrsOf bufs).length
  readAt_error : ∀ d off bufs e, (disk.readAt d off bufs).2 = .error e →
    (disk.readAt d off bufs).1 = []
  writeAt_ok : ∀ d off bs n, (disk.writeAt d off bs).2 = .ok n → n ≤ bs.length

theorem gather_eq (m : M) (bufs : List VolatileSlice) :
    gather m bufs = contents m (addrsOf bufs) := by
  induction bufs with
  | nil => rfl
  | cons vs bufs ih =>
    unfold gather at ih ⊢
    rw [flatMap_cons, ih, addrsOf_cons, ← contents_range']
    exact (map_append ..).symm

/-- The status of a request is in the last writable byte of the chain, and `len` counts the bytes
that the device wrote, that one with them. -/
def StatusInLast (disk : Disk D) (header : RequestHeader) (reader : Reader) (writer : Writer)
    (m : M) (d : D) (len : U32) : Prop :=
  let out := processRequest disk header reader writer m d
  let status := (statusAndLen out.result).1
  ∃ last e w', out.writer.writeAll out.mem [status] = (e, .ok (), w') ∧
    writer.addrs.getLast? = some last ∧ out.writer.addrs = [last] ∧ byte e.mem last = status ∧
    len.toNat = w'.bytesWritten

/-- The worker serves the chain as a driver expects it: it does not panic, it puts the chain in the
used ring once, and if the chain has a writable byte, status and length are right. -/
def Completed (disk : Disk D) (head : DescriptorChain) (s : ServiceState M D) : Prop :=
  ∃ s' len, handle disk head s = some s' ∧ Returned head len s s' ∧
    ∀ header reader writer, request s.mem head = some (header, reader, writer) →
      0 < writer.availableBytes → StatusInLast disk header reader writer s.mem s.dev len

section Requests

variable [LawfulGuestMemory M] {disk : Disk D} {header : RequestHeader} {reader : Reader}
  {writer : Writer} {m : M} {d : D}

/-- The request moved its writer on by `k` bytes. Only `OUT` may report more than that, and it
moves the writer not at all. -/
structure Moved (header : RequestHeader) (writer : Writer) (m : M) (k : ℕ)
    (req : RequestOut M D) : Prop where
  after : writer.After k req.writer
  layout : SameLayout m req.mem
  out : header.requestType = virtioBlkTOut → k = 0
  other : header.requestType ≠ virtioBlkTOut → (statusAndLen req.result).2 ≤ k

omit [LawfulGuestMemory M] in
theorem Moved.idle (hw : writer.Usable m) {result : Except RequestError ℕ}
    (h : header.requestType = virtioBlkTOut ∨ (statusAndLen result).2 = 0) (d : D) :
    Moved header writer m 0 ⟨result, writer, m, d⟩ where
  after := after_zero hw.counted
  layout := .refl m
  out _ := rfl
  other ho := by
    rcases h with h | h
    · exact absurd h ho
    · exact h.le

theorem processRequest_moved (hd : disk.Lawful) (hw : writer.Usable m) :
    ∃ k, Moved header writer m k (processRequest disk header reader writer m d) := by
  have hnone : ∀ e : RequestError, header.requestType = virtioBlkTOut ∨
      (statusAndLen (.error e)).2 = 0 := fun _ => .inr rfl
  have hempty : header.requestType = virtioBlkTOut ∨ (statusAndLen (.ok 0)).2 = 0 := .inr rfl
  unfold processRequest
  by_cases hin : header.requestType = virtioBlkTIn
  · have hout : header.requestType ≠ virtioBlkTOut := by
      rw [hin]
      decide
    simp only [if_pos hin]
    split_ifs
    · exact ⟨0, .idle hw (hnone _) d⟩
    rcases writeFrom_filled (disk.readAt d (header.sector * 512))
        (BitVec.ofNat 64 writer.availableBytes - 1).toNat (hd.readAt_ok d _)
        (hd.readAt_error d _) hw with ⟨-, hrun⟩ | ⟨bufs, e, -, -, hf, hrun⟩
    · rw [hrun]
      exact ⟨0, .idle hw hempty d⟩
    rcases hrun with ⟨err, -, hrun⟩ | ⟨n, w', -, hrun, hafter⟩
    · rw [hrun]
      exact ⟨0, after_zero hw.counted, hf.layout, fun _ => rfl, fun _ => le_refl 0⟩
    · rw [hrun]
      exact ⟨n, hafter, hf.layout, fun h => absurd h hout, fun _ => le_refl n⟩
  rw [if_neg hin]
  by_cases hout : header.requestType = virtioBlkTOut
  · simp only [if_pos hout]
    split <;> exact ⟨0, .idle hw (.inl hout) _⟩
  rw [if_neg hout]
  split
  · cases disk.cacheType with
    | unsafeCache => exact ⟨0, .idle hw hempty d⟩
    | writeback =>
      rcases disk.flush d with ⟨d₁, e | _⟩
      · exact ⟨0, .idle hw (hnone _) d₁⟩
      · rcases hsync : disk.syncAll d₁ with ⟨d₂, e | _⟩ <;> simp only [hsync]
        · exact ⟨0, .idle hw (hnone _) d₂⟩
        · exact ⟨0, .idle hw hempty d₂⟩
  split
  · split_ifs with hshort
    · exact ⟨0, .idle hw (hnone _) d⟩
    · rw [Writer.availableBytes_eq, Nat.not_lt] at hshort
      obtain ⟨e, w', hrun, hf, hafter⟩ := writeAll_filled hw hshort
      simp only [hrun]
      exact ⟨_, hafter, hf.layout, fun h => absurd h hout, fun _ => le_refl _⟩
  · exact ⟨0, .idle hw (hnone _) d⟩

/-- The status reaches the last writable byte, with a length that counts it, only for an `OUT`
request with no other writable byte, of which the file says that it took one byte (modulo the
32 bits of a length). -/
theorem statusInLast_iff (hd : disk.Lawful) (hw : writer.Usable m)
    (hzero : writer.bytesWritten = 0) (hpos : 0 < writer.availableBytes) :
    StatusInLast disk header reader writer m d (BitVec.ofNat 32
        (statusAndLen (processRequest disk header reader writer m d).result).2) ↔
      header.requestType = virtioBlkTOut ∧ writer.availableBytes = 1 ∧
        (statusAndLen (processRequest disk header reader writer m d).result).2 % 2 ^ 32 = 1 := by
  obtain ⟨k, hafter, hlayout, hout, hother⟩ :
      ∃ k, Moved header writer m k (processRequest disk header reader writer m d) :=
    processRequest_moved hd hw
  unfold StatusInLast
  rw [Writer.availableBytes_eq] at hpos ⊢
  set out := processRequest disk header reader writer m d
  have hlen : out.writer.addrs.length = writer.addrs.length - k := by
    rw [hafter.addrs, length_drop]
  have husable := hafter.usable hw hlayout
  simp only [BitVec.toNat_ofNat]
  constructor
  · rintro ⟨last, e, w', hrun, -, hone, -, hcount⟩
    have hroom : [(statusAndLen out.result).1].length ≤ out.writer.addrs.length := by
      rw [hone]
      exact le_refl 1
    obtain ⟨e₁, w₁, hrun₁, -, hafter₁⟩ := writeAll_filled husable hroom
    rw [hrun₁] at hrun
    obtain rfl : w₁ = w' := congrArg (fun r => r.2.2) hrun
    -- the device has written `k` bytes and the status
    have hwritten : w₁.bytesWritten = k + 1 := by
      rw [hafter₁.written, hafter.written, hzero, Nat.zero_add]
      rfl
    rw [hwritten] at hcount
    rw [hone, length_singleton] at hlen
    by_cases ho : header.requestType = virtioBlkTOut
    · have hk0 := hout ho
      subst hk0
      exact ⟨ho, by omega, hcount⟩
    · have hle := hother ho
      omega
  · rintro ⟨ho, hone, hcount⟩
    obtain rfl := hout ho
    have hroom : [(statusAndLen out.result).1].length ≤ out.writer.addrs.length := by
      rw [hlen, hone]
      exact le_refl 1
    obtain ⟨e, w', hrun, hf, hafter'⟩ := writeAll_filled husable hroom
    obtain ⟨last, hlast⟩ := length_eq_one_iff.mp hone
    have hsame : out.writer.addrs = [last] := by rw [hafter.addrs, hlast, drop_zero]
    refine ⟨last, e, w', hrun, ?_, hsame, ?_, ?_⟩
    · rw [hlast]
      rfl
    · have hb := hf.bytes
      rw [hsame] at hb
      rw [hb]
      exact Function.update_self last _ (byte out.mem)
    · rw [hcount, hafter'.written, hafter.written, hzero]
      rfl

end Requests

/-- The requests that come out right: the chain is mapped and holds a header, and it has no writable
byte at all, or it is a write of whole sectors with the status byte alone, of which the file says
that it took one byte. -/
def ComesOutRight (disk : Disk D) (head : DescriptorChain) (m : M) (d : D) : Prop :=
  ∃ header reader writer, request m head = some (header, reader, writer) ∧
    (writer.availableBytes = 0 ∨
      header.requestType = virtioBlkTOut ∧ writer.availableBytes = 1 ∧
        reader.availableBytes % 512 = 0 ∧
        ∃ n, (disk.writeAt d (header.sector * 512) (contents m reader.addrs)).2 = .ok n ∧
          n % 2 ^ 32 = 1)

/-- All that is left to read is passed to the file at once. -/
theorem gather_takeBuffers (reader : Reader) (m : M) :
    gather m (takeBuffers reader.availableBytes 0 reader.buffer.buffers) =
      contents m reader.addrs := by
  obtain ⟨hpre, hlong⟩ := takeBuffers_spec reader.availableBytes 0 reader.buffer.buffers
  rw [gather_eq, hpre.eq_of_length_le ?_]
  · rfl
  · rw [reader.availableBytes_eq] at hlong ⊢
    change min (reader.addrs.length - 0) reader.addrs.length ≤ _ at hlong
    change reader.addrs.length ≤ _
    omega

theorem out_len_iff (hd : disk.Lawful) (hr : reader.buffer.Counted)
    (hout : header.requestType = virtioBlkTOut) (d : D) :
    (statusAndLen (processRequest disk header reader writer m d).result).2 % 2 ^ 32 = 1 ↔
      reader.availableBytes % 512 = 0 ∧
        ∃ n, (disk.writeAt d (header.sector * 512) (contents m reader.addrs)).2 = .ok n ∧
          n % 2 ^ 32 = 1 := by
  have hin : header.requestType ≠ virtioBlkTIn := by
    rw [hout]
    decide
  have hlaw := hd.writeAt_ok d (header.sector * 512)
  unfold processRequest
  simp only [if_neg hin, if_pos hout]
  by_cases hmod : reader.availableBytes % 512 = 0
  · rw [if_neg (not_not.mpr hmod), and_iff_right hmod]
    unfold Reader.readTo
    rcases consume_spec hr reader.availableBytes ([] : List VolatileSlice)
        (fun bufs => (bufs, (disk.writeAt d (header.sector * 512) (gather m bufs)).2)) (by
          intro bufs n hn
          have hle := hlaw _ n hn
          rwa [gather_eq, length_contents] at hle) with ⟨hnil, hrun⟩ | ⟨bufs, rfl, -, hrun⟩
    · -- without data the file is not called, and could not take a byte
      rw [hrun]
      refine iff_of_false (by decide : ¬ 0 % 2 ^ 32 = 1) ?_
      rintro ⟨n, hn, hone⟩
      have hle := hlaw _ n hn
      have hzero := takeBuffers_eq_nil hnil
      rw [reader.availableBytes_eq] at hzero
      change min reader.addrs.length reader.addrs.length = 0 at hzero
      rw [length_contents] at hle
      omega
    · simp only [gather_takeBuffers] at hrun
      rcases hrun with ⟨err, herr, hrun⟩ | ⟨n, hn, hrun⟩
      · rw [hrun, herr]
        exact iff_of_false (by decide : ¬ 0 % 2 ^ 32 = 1) (fun ⟨_, h, _⟩ => nomatch h)
      · rw [hrun, hn]
        show n % 2 ^ 32 = 1 ↔ _
        simp
  · rw [if_pos hmod]
    exact iff_of_false (by decide : ¬ 0 % 2 ^ 32 = 1) fun h => hmod h.1

section Completion

variable [LawfulGuestMemory M] {disk : Disk D} {head : DescriptorChain} {s : ServiceState M D}

theorem handle_returned (hd : disk.Lawful) (hr : s.queue.RingsMapped s.mem)
    (hh : head.index < s.queue.size) (hreq : request s.mem head = some (header, reader, writer)) :
    ∃ s', handle disk head s = some s' ∧ Returned head (BitVec.ofNat 32
      (statusAndLen (processRequest disk header reader writer s.mem s.dev).result).2) s s' := by
  obtain ⟨hw, -⟩ := request_writer hreq
  obtain ⟨k, hmoved⟩ :
      ∃ k, Moved header writer s.mem k (processRequest disk header reader writer s.mem s.dev) :=
    processRequest_moved hd hw
  rw [handle_eq, hreq]
  set out := processRequest disk header reader writer s.mem s.dev
  -- the status may find room or not; the rings stay mapped
  have hstatus : SameLayout out.mem
      (out.writer.writeAll out.mem [(statusAndLen out.result).1]).1.mem :=
    (writeAllLoop_confined (S := fun _ => True) 1 out.mem [(statusAndLen out.result).1]
      fun _ _ _ _ => trivial).1.layout
  obtain ⟨s', hrun, hret⟩ := addUsedAndNotify_returned (s := ⟨s.queue, _, out.dev⟩)
    (hr.congr (.refl _) (hmoved.layout.trans hstatus)) hh
    (BitVec.ofNat 32 (statusAndLen out.result).2)
  exact ⟨s', hrun, hret.nextUsed, hret.idx, hret.cell⟩

theorem completed_iff_of_lt (hd : disk.Lawful) (hr : s.queue.RingsMapped s.mem)
    (hh : head.index < s.queue.size) :
    Completed disk head s ↔ ComesOutRight disk head s.mem s.dev := by
  constructor
  · rintro ⟨s', len, hrun, hret, hstatus⟩
    rcases hreq : request s.mem head with _ | ⟨header, reader, writer⟩
    · -- a dropped chain leaves the queue as it was
      rw [handle_eq, hreq] at hrun
      cases hrun
      have hne := hret.nextUsed
      bv_omega
    refine ⟨header, reader, writer, hreq, ?_⟩
    obtain ⟨s₁, hrun₁, hret₁⟩ := handle_returned hd hr hh hreq
    cases hrun₁.symm.trans hrun
    obtain rfl : len = _ := congrArg VirtqUsedElem.len (hret.cell.symm.trans hret₁.cell)
    by_cases hpos : 0 < writer.availableBytes
    · obtain ⟨hw, hzero⟩ := request_writer hreq
      obtain ⟨hout, hone, hlen⟩ :=
        (statusInLast_iff hd hw hzero hpos).mp (hstatus _ _ _ hreq hpos)
      exact .inr ⟨hout, hone, (out_len_iff hd (request_reader hreq) hout s.dev).mp hlen⟩
    · exact .inl (by omega)
  · rintro ⟨header, reader, writer, hreq, hright⟩
    obtain ⟨s', hrun, hret⟩ := handle_returned hd hr hh hreq
    refine ⟨s', _, hrun, hret, fun header' reader' writer' hreq' hpos => ?_⟩
    cases hreq.symm.trans hreq'
    obtain ⟨hw, hzero⟩ := request_writer hreq
    rcases hright with hnone | ⟨hout, hone, hlen⟩
    · omega
    · exact (statusInLast_iff hd hw hzero hpos).mpr
        ⟨hout, hone, (out_len_iff hd (request_reader hreq) hout s.dev).mpr hlen⟩

variable {q : Queue}

omit [LawfulGuestMemory M] in
theorem popped (hpop : s.queue.pop s.mem = some (some head, q)) :
    Queue.SameConfig s.queue q ∧ head.index < q.size := by
  have hcfg : Queue.SameConfig s.queue q := pop_config hpop
  rcases pop_cases hpop with h | ⟨c, h, hlt⟩
  · cases h
  · obtain ⟨⟨⟩, -⟩ := Prod.mk.injEq .. ▸ h
    exact ⟨hcfg, by rw [hcfg.size]; exact hlt⟩

theorem comesOutRight_of_popped (hd : disk.Lawful) (hr : s.queue.RingsMapped s.mem)
    (hpop : s.queue.pop s.mem = some (some head, q))
    (h : Completed disk head { s with queue := q }) : ComesOutRight disk head s.mem s.dev := by
  obtain ⟨hcfg, hh⟩ := popped hpop
  exact (completed_iff_of_lt (s := { s with queue := q }) hd (hr.congr hcfg (.refl _)) hh).mp h

/-- **Completion of a block request.** Of the chains that the worker takes out of its queue, those
are served as a driver expects it that come out right in the sense of `ComesOutRight`. All others
are dropped, or their status is not in the last byte, or the length does not count it. -/
theorem completed_iff (hd : disk.Lawful) (hr : s.queue.RingsMapped s.mem) {q : Queue}
    (hpop : s.queue.pop s.mem = some (some head, q)) :
    Completed disk head { s with queue := q } ↔ ComesOutRight disk head s.mem s.dev := by
  obtain ⟨hcfg, hh⟩ := popped hpop
  exact completed_iff_of_lt (s := { s with queue := q }) hd (hr.congr hcfg (.refl _)) hh

end Completion

/-! ## Three chains -/

def headerOnly : ServiceState FlatMemory Unit := servedQueue 0 ⟨0x100, 16, 0, 0⟩ ⟨0, 0, 0, 0⟩

theorem emptyDisk_lawful : emptyDisk.Lawful where
  readAt_ok _ _ _ _ h := by
    cases h
    exact ⟨rfl, Nat.zero_le _⟩
  readAt_error _ _ _ _ _ := rfl
  writeAt_ok _ _ _ _ h := by
    cases h
    exact Nat.zero_le _

/-- The chain without a writable byte is put in the used ring. -/
theorem completed_header_only :
    ∃ head q, headerOnly.queue.pop headerOnly.mem = some (some head, q) ∧
      Completed emptyDisk head { headerOnly with queue := q } := by
  have hpop : headerOnly.queue.pop headerOnly.mem =
      some (some ⟨0, 4, 4, 0, 0x100, 16, 0, 0⟩, { smallQueue with nextAvail := 1 }) := by
    decide +kernel
  have hrings : headerOnly.queue.RingsMapped headerOnly.mem := (servedQueue_placed _ _ _).rings
  refine ⟨_, _, hpop, (completed_iff emptyDisk_lawful hrings hpop).mpr ?_⟩
  exact ⟨⟨0, 0⟩, ⟨⟨[], 16⟩⟩, ⟨⟨[], 0⟩⟩, by decide +kernel, .inl rfl⟩

def zeroDisk : Disk Unit :=
  { emptyDisk with
    readAt := fun _ _ bufs =>
      (List.replicate (addrsOf bufs).length 0, .ok (addrsOf bufs).length) }

theorem zeroDisk_lawful : zeroDisk.Lawful where
  readAt_ok _ _ _ _ h := by
    cases h
    exact ⟨length_replicate, le_refl _⟩
  readAt_error _ _ _ _ h := by cases h
  writeAt_ok := emptyDisk_lawful.writeAt_ok

def shortHeader : ServiceState FlatMemory Unit :=
  servedQueue 0 ⟨0x100, 8, 1, 1⟩ ⟨0x110, 1, 2, 0⟩

/-- A memory with room for a sector, and a chain of three descriptors, the first one a header. -/
def sectorMemory (d₁ d₂ : Descriptor) : FlatMemory :=
  (((FlatMemory.zeroed [⟨0, 0x600⟩] (by decide)).put 0
    (Descriptor.toBytes ⟨0x200, 16, 1, 1⟩)).put 16 d₁.toBytes).put 32 d₂.toBytes

/-- The read of a sector: a header at 0x200, 512 bytes at 0x210 and a status byte at 0x410. -/
def sectorRead : ServiceState FlatMemory Unit :=
  ⟨smallQueue, (sectorMemory ⟨0x210, 512, 3, 2⟩ ⟨0x410, 1, 2, 0⟩).put 0x82 (leBytes 2 1), ()⟩

/-- The worker takes both chains. It drops the first one; of the second it reports 512 bytes, but
wrote 513. -/
theorem not_completed :
    (∃ head q, shortHeader.queue.pop shortHeader.mem = some (some head, q) ∧
      ¬ Completed zeroDisk head { shortHeader with queue := q }) ∧
    ∃ head q, sectorRead.queue.pop sectorRead.mem = some (some head, q) ∧
      ¬ Completed zeroDisk head { sectorRead with queue := q } := by
  have hshort : shortHeader.queue.pop shortHeader.mem =
      some (some ⟨0, 4, 4, 0, 0x100, 8, 1, 1⟩, { smallQueue with nextAvail := 1 }) := by
    decide +kernel
  have hsector : sectorRead.queue.pop sectorRead.mem =
      some (some ⟨0, 4, 4, 0, 0x200, 16, 1, 1⟩, { smallQueue with nextAvail := 1 }) := by
    decide +kernel
  refine ⟨⟨_, _, hshort, fun h => ?_⟩, ⟨_, _, hsector, fun h => ?_⟩⟩
  · obtain ⟨header, reader, writer, hreq, -⟩ :=
      comesOutRight_of_popped zeroDisk_lawful (servedQueue_placed _ _ _).rings hshort h
    have hnone : request shortHeader.mem ⟨0, 4, 4, 0, 0x100, 8, 1, 1⟩ = none := by decide +kernel
    cases hnone.symm.trans hreq
  · obtain ⟨header, reader, writer, hreq, hright⟩ :=
      comesOutRight_of_popped zeroDisk_lawful (by decide +kernel) hsector h
    have hread : request sectorRead.mem ⟨0, 4, 4, 0, 0x200, 16, 1, 1⟩ =
        some (⟨0, 0⟩, ⟨⟨[], 16⟩⟩, ⟨⟨[⟨0x210, 512⟩, ⟨0x410, 1⟩], 0⟩⟩) := by decide +kernel
    cases hread.symm.trans hreq
    rcases hright with hright | hright
    · exact absurd hright (by decide)
    · exact absurd hright.1 (by decide)

end BlockWorker

end Shelter.Virtio
