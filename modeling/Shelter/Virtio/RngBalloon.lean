import Shelter.Virtio.BlockWorker

/-!
# The entropy device and the balloon

Both devices walk over the descriptors of a chain, whatever their flags, and put the chain in the
used ring. The entropy device fills them with random bytes; when one cannot be written, the chain is
put in the used ring and is also handed back to the queue, to be popped again. The balloon has the
host discard them, from the host address of their first byte on.
-/

open Bytes

namespace Shelter.Virtio

open ServiceState DescriptorChain List Option

variable {M : Type} [GuestMemory M]

/-! ## The balloon -/

namespace Balloon

/-- A range in the host mapping of a region, as it is passed to `madvise`. -/
structure Advice where
  region : Region
  offset : ℕ
  len : ℕ
  deriving DecidableEq, Repr

def Advice.Inside (a : Advice) : Prop := a.offset + a.len ≤ a.region.len
  deriving Decidable

/-- `get_host_address` of the descriptor, with its length. -/
def advise (m : M) (d : DescriptorChain) : Option Advice :=
  (findRegion m d.addr.toNat).map fun r => ⟨r, d.addr.toNat - r.start, d.len.toNat⟩

/-- The body of `process_frq`. An address outside of guest memory panics in an unwrap. The chain is
read in the memory as it is before: a table in a page that is discarded while the chain is still
being walked, which would read as zero from then on, is not covered. -/
def handle (head : DescriptorChain) (s : ServiceState M (List Advice)) :
    Option (ServiceState M (List Advice)) :=
  ((head.intoIter.collect s.mem).mapM (advise s.mem)).map fun advices =>
    let out := (s.queue.addUsed s.mem head.index 0).2
    ⟨out.1, out.2, s.dev ++ advices⟩

/-- The chain does not panic, and what is discarded for it lies in the mapping of one region. -/
def Sound (head : DescriptorChain) (s : ServiceState M (List Advice)) : Prop :=
  ∃ s' advices, handle head s = some s' ∧ s'.dev = s.dev ++ advices ∧ ∀ a ∈ advices, a.Inside

theorem advise_inside_iff [LawfulGuestMemory M] {m : M} {d : DescriptorChain} :
    (∃ a, advise m d = some a ∧ a.Inside) ↔ InRegion m d := by
  unfold advise InRegion Advice.Inside
  rcases hr : findRegion m d.addr.toNat with _ | r
  · simp
  · have hin := (LawfulGuestMemory.find_contains hr).1
    simp only [map_some, Option.some.injEq, exists_eq_left', mem_def]
    omega

theorem advise_all_iff [LawfulGuestMemory M] {m : M} {descs : List DescriptorChain} :
    (∃ advices, descs.mapM (advise m) = some advices ∧ ∀ a ∈ advices, a.Inside) ↔
      ∀ d ∈ descs, InRegion m d := by
  induction descs with
  | nil => simp
  | cons d descs ih =>
    rw [forall_mem_cons, ← ih, ← advise_inside_iff]
    simp only [mapM_cons, bind_eq_bind, bind_eq_some_iff]
    constructor
    · rintro ⟨_, ⟨a, ha, as, has, ⟨⟩⟩, hin⟩
      obtain ⟨hfirst, hrest⟩ := forall_mem_cons.mp hin
      exact ⟨⟨a, ha, hfirst⟩, as, has, hrest⟩
    · rintro ⟨⟨a, ha, hin⟩, as, has, hins⟩
      exact ⟨a :: as, ⟨a, ha, as, has, rfl⟩, forall_mem_cons.mpr ⟨hin, hins⟩⟩

/-- **Free pages.** A chain is handled as it should be exactly if each of its descriptors, empty
ones as well, begins in a region and does not go beyond it. -/
theorem frq_sound_iff [LawfulGuestMemory M] (head : DescriptorChain)
    (s : ServiceState M (List Advice)) :
    Sound head s ↔ ∀ d ∈ head.intoIter.collect s.mem, InRegion s.mem d := by
  rw [← advise_all_iff]
  constructor
  · rintro ⟨s', advices, hrun, hdev, hin⟩
    obtain ⟨advices', hmap, rfl⟩ := map_eq_some_iff.mp hrun
    obtain rfl : advices' = advices := append_cancel_left hdev
    exact ⟨advices', hmap, hin⟩
  · rintro ⟨advices, hmap, hin⟩
    exact ⟨_, advices, by rw [handle, hmap]; rfl, rfl, hin⟩

theorem frq_sound_two : Sound ⟨0, 4, 4, 0, 0x100, 16, 1, 1⟩ { oneRequest with dev := [] } :=
  (frq_sound_iff _ _).mpr (by decide +kernel)

/-- A page that ends behind its region is discarded all the same, and an address outside of guest
memory panics. -/
theorem frq_unsound :
    (∃ s, handle ⟨0, 4, 4, 0, 0x100, 0x1000, 0, 0⟩ { oneRequest with dev := [] } = some s ∧
      ∃ a ∈ s.dev, ¬ a.Inside) ∧
    handle ⟨0, 4, 4, 0, 0x10000, 16, 0, 0⟩ { oneRequest with dev := [] } = none := by
  refine ⟨⟨_, rfl, ⟨⟨0, 0x200⟩, 0x100, 0x1000⟩, ?_, ?_⟩, rfl⟩
  · decide +kernel
  · decide

end Balloon

/-! ## The entropy device -/

namespace Rng

open DescIter

/-- A chain that was put in the used ring, with the descriptors that were filled for it. -/
structure Used where
  index : U16
  len : U32
  filled : List DescriptorChain
  deriving DecidableEq, Repr

def bytes (descs : List DescriptorChain) : ℕ := (descs.map (·.len.toNat)).sum

/-- Only bytes that the device may write were written, and the length counts them. -/
def Used.Right (u : Used) : Prop :=
  u.len.toNat = bytes u.filled ∧ ∀ d ∈ u.filled, 0 < d.len.toNat → d.isWriteOnly = true
  deriving Decidable

/-- The loop over the descriptors of a chain. -/
structure Filling (M : Type) where
  mem : M
  written : U32
  filled : List DescriptorChain
  failed : Bool

/-- Each descriptor is filled with random bytes. The next one is looked up before that; the fuel is
not used up (see `ttl`), and the sum of the lengths wraps. -/
def fill (random : ℕ → ℕ → Byte) : ℕ → DescIter → Filling M → Filling M
  | 0, _, f => f
  | fuel + 1, it, f =>
    match it.next f.mem with
    | (none, _) => f
    | (some d, it') =>
      let bytes := (List.range d.len.toNat).map (random f.filled.length)
      match writeSlice f.mem d.addr.toNat bytes with
      | (m, true) => fill random fuel it' ⟨m, f.written + d.len, f.filled ++ [d], f.failed⟩
      | (m, false) => { f with mem := m, failed := true }

variable (random : ℕ → ℕ → ℕ → Byte)

/-- The body of the loop of `process_req`. An error of `add_used` is logged. -/
def handle (head : DescriptorChain) (s : ServiceState M (List Used)) : ServiceState M (List Used) :=
  let f := fill (random s.dev.length) (head.ttl.toNat + 1) head.intoIter ⟨s.mem, 0, [], false⟩
  let q := if f.failed then s.queue.goToPreviousPosition else s.queue
  match q.addUsed f.mem head.index f.written with
  | (.ok _, q, m) => ⟨q, m, s.dev ++ [⟨head.index, f.written, f.filled⟩]⟩
  | (.error _, q, m) => ⟨q, m, s.dev⟩

/-- Where `process_req` is after some turns of its loop; `panicked` is the `unwrap` in `pop`. -/
inductive Outcome (α : Type)
  | done (s : α)
  | panicked
  | running

def processReq : ℕ → ServiceState M (List Used) → Outcome (ServiceState M (List Used))
  | 0, _ => .running
  | turns + 1, s =>
    match s.queue.pop s.mem with
    | none => .panicked
    | some (none, q) => .done { s with queue := q }
    | some (some head, q) => processReq turns (handle random head { s with queue := q })

/-- Whether `write_slice` of as many bytes as the descriptor holds succeeds. -/
def Fits (m : M) (d : DescriptorChain) : Bool :=
  (writeSlice m d.addr.toNat (List.replicate d.len.toNat 0)).2

/-- The buffers are in guest memory and for the device to write, and hold less than `2 ^ 32`
bytes. -/
structure Suits (m : M) (c : DescriptorChain) : Prop where
  fits : ∀ d ∈ c.intoIter.collect m, Fits m d = true
  writable : ∀ d ∈ c.intoIter.collect m, 0 < d.len.toNat → d.isWriteOnly = true
  short : bytes (c.intoIter.collect m) < 2 ^ 32

/-- The buffers of `n` chains overlap neither the available ring nor the table. -/
def BuffersApart (s : ServiceState M (List Used)) (n : ℕ) : Prop :=
  ∀ k < n, ∀ c ∈ s.chainAt k, ∀ d ∈ c.intoIter.collect s.mem,
    Apart d.addr.toNat d.len.toNat s.queue.availRing.toNat (6 + 2 * s.queue.size.toNat) ∧
    Apart d.addr.toNat d.len.toNat s.queue.descTable.toNat (16 * s.queue.actualSize.toNat)

/-- `process_req` ends, and has put each of the `n` chains in the used ring once, in their order. -/
def Served (s : ServiceState M (List Used)) (n : ℕ) : Prop :=
  ∃ turns t new, processReq random turns s = .done t ∧ t.dev = s.dev ++ new ∧
    new.map (some ·.index) = (List.range n).map (fun k => (s.chainAt k).map (·.index)) ∧
    ∀ u ∈ new, u.Right

/-- What is put in the used ring for a chain. -/
def entry (m : M) (c : DescriptorChain) : Used :=
  let filled := (c.intoIter.collect m).takeWhile (Fits m)
  ⟨c.index, BitVec.ofNat 32 (bytes filled), filled⟩

theorem suits_iff {m : M} {c : DescriptorChain} :
    Suits m c ↔ (c.intoIter.collect m).all (Fits m) = true ∧ (entry m c).Right := by
  have hall (h : ∀ d ∈ c.intoIter.collect m, Fits m d = true) :
      entry m c = ⟨c.index, BitVec.ofNat 32 (bytes (c.intoIter.collect m)),
        c.intoIter.collect m⟩ := by
    rw [entry, takeWhile_eq_self_iff.mpr h]
  rw [List.all_eq_true]
  constructor
  · rintro ⟨hfits, hwritable, hshort⟩
    rw [hall hfits]
    exact ⟨hfits, Nat.mod_eq_of_lt hshort, hwritable⟩
  · rintro ⟨hfits, hlen, hwritable⟩
    rw [hall hfits] at hlen hwritable
    exact ⟨hfits, hwritable, hlen ▸ BitVec.isLt _⟩

theorem processReq_add {s t : ServiceState M (List Used)} {turns : ℕ}
    (h : processReq random turns s = .done t) (more : ℕ) :
    processReq random (turns + more) s = .done t := by
  induction turns generalizing s with
  | zero => exact nomatch h
  | succ turns ih =>
    rw [Nat.succ_add]
    unfold processReq at h ⊢
    rcases hpop : s.queue.pop s.mem with _ | ⟨_ | c, q⟩ <;> rw [hpop] at h
    · exact nomatch h
    · exact h
    · exact ih h

/-! ### One chain -/

variable [LawfulGuestMemory M]

theorem writeSlice_fits (hempty : EmptyWritesByLayout M) {m m' : M} (hl : SameLayout m m')
    {d : DescriptorChain} {bs : List Byte} (hlen : bs.length = d.len.toNat) :
    (writeSlice m' d.addr.toNat bs).2 = Fits m d := by
  unfold Fits
  rcases Nat.eq_zero_or_pos d.len.toNat with h0 | hpos
  · obtain rfl := length_eq_zero_iff.mp (hlen.trans h0)
    rw [h0]
    exact hempty _ _ _ hl
  · rw [Bool.eq_iff_iff, LawfulGuestMemory.writeSlice_ok (ne_nil_of_length_pos (hlen ▸ hpos)),
      LawfulGuestMemory.writeSlice_ok (ne_nil_of_length_pos (by simpa using hpos)), hlen,
      length_replicate]
    exact hl.mapped_iff

theorem fill_spec (hempty : EmptyWritesByLayout M) (random : ℕ → ℕ → Byte) {S : ℕ → Prop} {m : M}
    {n : ℕ} {c : DescriptorChain} {f : Filling M} (hl : SameLayout m f.mem)
    (ho : SameOutside S m f.mem)
    (htable : ∀ x, S x → ¬ Range c.descTable.toNat (16 * c.queueSize.toNat) x)
    (hd : ∀ d ∈ (drive m n c.intoIter).1, ∀ x, Range d.addr.toNat d.len.toNat x → S x) :
    ∃ m', fill random n c.intoIter f = ⟨m', f.written +
        BitVec.ofNat 32 (bytes ((drive m n c.intoIter).1.takeWhile (Fits m))),
        f.filled ++ (drive m n c.intoIter).1.takeWhile (Fits m),
        f.failed || !(drive m n c.intoIter).1.all (Fits m)⟩ ∧
      SameLayout m m' ∧ SameOutside S m m' := by
  induction n generalizing c f with
  | zero => exact ⟨f.mem, by simp [fill, drive, bytes], hl, ho⟩
  | succ n ih =>
    have hnext : c.nextDescriptor f.mem = c.nextDescriptor m := by
      unfold nextDescriptor
      rw [checkedNew_congr hl fun x hx => ho x fun hS => htable x hS hx]
    rw [intoIter, drive_succ] at hd ⊢
    obtain ⟨hin, hrest⟩ := forall_mem_cons.mp hd
    set bs := (List.range c.len.toNat).map (random f.filled.length) with hbs
    have hlen : bs.length = c.len.toNat := by simp [hbs]
    have hok := writeSlice_fits hempty hl hlen
    have hl' := hl.trans fun x => LawfulGuestMemory.writeSlice_find f.mem c.addr.toNat bs x
    have ho' := ho.trans ((writeSlice_sameOutside f.mem c.addr.toNat bs).mono fun x hx =>
      hin x (hlen ▸ hx))
    rcases hw : writeSlice f.mem c.addr.toNat bs with ⟨m₁, ok⟩
    rw [hw] at hok hl' ho'
    obtain rfl : ok = Fits m c := hok
    cases hfits : Fits m c with
    | false =>
      rw [hfits] at hw
      refine ⟨m₁, ?_, hl', ho'⟩
      simp [fill, DescIter.next, ← hbs, hw, hfits, bytes]
    | true =>
      have hrun : fill random (n + 1) ⟨some c⟩ f = fill random n ⟨c.nextDescriptor m⟩
          ⟨m₁, f.written + c.len, f.filled ++ [c], f.failed⟩ := by
        rw [hfits] at hw
        simp only [fill, DescIter.next, ← hbs, hw, hnext]
      rw [hrun]
      rcases hc : c.nextDescriptor m with _ | d
      · refine ⟨m₁, ?_, hl', ho'⟩
        cases n <;> simp [fill, DescIter.next, hfits, bytes]
      · obtain ⟨hlink, -⟩ := nextDescriptor_some hc
        rw [hc] at hrest
        obtain ⟨m', hfill, hl'', ho''⟩ := ih (c := d) (f := ⟨_, _, _, _⟩) hl' ho'
          (by rw [hlink.table, hlink.size]; exact htable) hrest
        refine ⟨m', hfill.trans ?_, hl'', ho''⟩
        simp [intoIter, hfits, bytes, BitVec.ofNat_add, BitVec.add_assoc]

section

variable {s t : ServiceState M (List Used)} {n k : ℕ} {c : DescriptorChain}

/-- A chain that fits is done with; any other one is the next to be popped again. -/
theorem handle_spec (hempty : EmptyWritesByLayout M) (hs : s.Placed) (ho : BuffersApart s n)
    (hk : k < n) (hc : s.chainAt k = some c) (h : s.After (k + 1) t) :
    s.After (if (c.intoIter.collect s.mem).all (Fits s.mem) then k + 1 else k)
        (handle random c t) ∧
      (handle random c t).dev = t.dev ++ [entry s.mem c] := by
  obtain ⟨hlt, htab, hsize⟩ : c.index < s.queue.actualSize ∧ c.descTable = s.queue.descTable ∧
      c.queueSize = s.queue.actualSize := by
    unfold chainAt at hc
    split_ifs at hc
    obtain ⟨hlt, htab, hsize, -, hindex, -⟩ := checkedNew_some hc
    exact ⟨hindex ▸ hlt, htab, hsize⟩
  have hdrive : (drive t.mem (c.ttl.toNat + 1) c.intoIter).1 = c.intoIter.collect s.mem :=
    collect_after hc h
  have hfits : Fits t.mem = Fits s.mem := funext fun d =>
    writeSlice_fits hempty h.kept.layout (length_replicate ..)
  obtain ⟨m, hfill, hl, hout⟩ := fill_spec hempty (random t.dev.length) (m := t.mem)
    (n := c.ttl.toNat + 1) (f := ⟨t.mem, 0, [], false⟩) (c := c)
    (S := fun x => ∃ d ∈ c.intoIter.collect s.mem, Range d.addr.toNat d.len.toNat x)
    (.refl _) (.refl _ _)
    (by
      rintro x ⟨d, hd, hx⟩
      rw [htab, hsize]
      exact (ho k hk c hc d hd).2 x hx)
    (by
      intro d hd x hx
      exact ⟨d, hdrive ▸ hd, hx⟩)
  rw [hdrive, hfits] at hfill
  have hm : s.After (k + 1) { t with mem := m } := by
    refine ⟨⟨h.kept.config, h.kept.layout.trans hl, h.kept.avail.trans ?_,
      h.kept.table.trans ?_⟩, h.nextAvail, h.le⟩
    · exact fun x hx => hout x fun ⟨d, hd, hin⟩ => (ho k hk c hc d hd).1 x hin hx
    · exact fun x hx => hout x fun ⟨d, hd, hin⟩ => (ho k hk c hc d hd).2 x hin hx
  set fits := (c.intoIter.collect s.mem).all (Fits s.mem) with hall
  set q := if !fits then t.queue.goToPreviousPosition else t.queue with hqueue
  have hq : s.After (if fits then k + 1 else k) { t with mem := m, queue := q } := by
    rw [hqueue]
    cases fits with
    | true => exact hm
    | false => exact hm.undone
  have hhead : c.index < q.size := by
    have hle := s.queue.actualSize_le
    rw [hq.kept.config.size]
    bv_omega
  obtain ⟨m', hadd, hl', hout'⟩ := Queue.addUsed_run (hq.rings hs) hhead (entry s.mem c).len
  have hrun : handle random c t = ⟨q.bumpUsed, m', t.dev ++ [entry s.mem c]⟩ := by
    unfold handle
    simp only [hfill, Bool.false_or, nil_append, ← hqueue]
    have hlen : (0 : U32) + BitVec.ofNat 32 (bytes ((c.intoIter.collect s.mem).takeWhile
        (Fits s.mem))) = (entry s.mem c).len := BitVec.zero_add _
    rw [hlen, hadd]
    rfl
  rw [hrun]
  exact ⟨((hq.write hs hl' hout').requeue (.bumpUsed _) rfl).withDev _, rfl⟩

/-! ### The loop -/

theorem processReq_turn (hempty : EmptyWritesByLayout M) (hs : s.Placed) (hn : s.Ready n)
    (ho : BuffersApart s n) (hk : k < n) (h : s.After k t) :
    ∃ c t', s.chainAt k = some c ∧ t'.dev = t.dev ++ [entry s.mem c] ∧
      s.After (if (c.intoIter.collect s.mem).all (Fits s.mem) then k + 1 else k) t' ∧
      ∀ turns, processReq random (turns + 1) t = processReq random turns t' := by
  obtain ⟨c, hc⟩ := isSome_iff_exists.mp (hn.accepted k hk)
  have hpop := h.pop_ready hs hn hk.le
  rw [if_neg hk.ne, hc] at hpop
  obtain ⟨hafter, hdev⟩ := handle_spec random hempty hs ho hk hc
    (h.popped (hk.trans_le hn.le).ne)
  exact ⟨c, _, hc, hdev, hafter, fun turns => by rw [processReq, hpop]⟩

theorem processReq_done (hs : s.Placed) (hn : s.Ready n) (h : s.After n t) (turns : ℕ) :
    processReq random (turns + 1) t = .done t := by
  rw [processReq, h.pop_ready hs hn le_rfl, if_pos rfl]

/-- A chain that does not fit is handed back and popped for ever. -/
theorem processReq_stuck (hempty : EmptyWritesByLayout M) (hs : s.Placed) (hn : s.Ready n)
    (ho : BuffersApart s n) (hk : k < n) (hc : s.chainAt k = some c)
    (hfits : (c.intoIter.collect s.mem).all (Fits s.mem) = false) (h : s.After k t) (turns : ℕ) :
    processReq random turns t = .running := by
  induction turns generalizing t with
  | zero => rfl
  | succ turns ih =>
    obtain ⟨c', t', hc', -, hafter, hrun⟩ := processReq_turn random hempty hs hn ho hk h
    obtain rfl : c = c' := some_inj.mp (hc.symm.trans hc')
    rw [hrun]
    exact ih (by simpa [hfits] using hafter)

/-- As long as the chains fit, they are put in the used ring one after the other. -/
theorem processReq_reaches (hempty : EmptyWritesByLayout M) (hs : s.Placed) (hn : s.Ready n)
    (ho : BuffersApart s n) (hk : k ≤ n)
    (hfits : ∀ j < k, ∀ c ∈ s.chainAt j, (c.intoIter.collect s.mem).all (Fits s.mem) = true) :
    ∃ t, s.After k t ∧ (∀ turns, processReq random (turns + k) s = processReq random turns t) ∧
      ∃ new, t.dev = s.dev ++ new ∧
        new.map some = (List.range k).map fun j => (s.chainAt j).map (entry s.mem) := by
  induction k with
  | zero => exact ⟨s, .refl s, fun _ => rfl, [], by simp, rfl⟩
  | succ k ih =>
    obtain ⟨t, h, hrun, new, hdev, hnew⟩ := ih (Nat.le_of_succ_le hk) fun j hj =>
      hfits j (Nat.lt_succ_of_lt hj)
    obtain ⟨c, t', hc, hdev', hafter, hturn⟩ := processReq_turn random hempty hs hn ho hk h
    rw [hfits k (Nat.lt_succ_self k) c hc, if_pos rfl] at hafter
    refine ⟨t', hafter, fun turns => ?_, new ++ [entry s.mem c], ?_, ?_⟩
    · rw [← Nat.add_assoc, Nat.add_right_comm, hrun, hturn]
    · rw [hdev', hdev, append_assoc]
    · rw [map_append, hnew, range_succ, map_append, map_singleton, map_singleton, hc]
      rfl

theorem fits_of_done (hempty : EmptyWritesByLayout M) (hs : s.Placed) (hn : s.Ready n)
    (ho : BuffersApart s n) {turns : ℕ} (hdone : processReq random turns s = .done t) :
    ∀ k < n, ∀ c ∈ s.chainAt k, (c.intoIter.collect s.mem).all (Fits s.mem) = true := by
  intro k
  induction k using Nat.strong_induction_on with
  | _ k ih =>
    intro hk c hc
    by_contra hfits
    obtain ⟨t', h, hrun, -⟩ := processReq_reaches random hempty hs hn ho hk.le fun j hj =>
      ih j hj (hj.trans hk)
    have hstuck := processReq_stuck random hempty hs hn ho hk hc (by simpa using hfits) h turns
    exact nomatch hstuck.symm.trans ((hrun turns).symm.trans (processReq_add random hdone k))

/-- **Entropy requests.** When the guest adds no more chains, `process_req` ends and serves those
that it can pop exactly if each of them suits it. -/
theorem requests_served_iff (hempty : EmptyWritesByLayout M) (hs : s.Placed) (hn : s.Ready n)
    (ho : BuffersApart s n) :
    Served random s n ↔ ∀ k < n, ∀ c ∈ s.chainAt k, Suits s.mem c := by
  simp only [suits_iff]
  constructor
  · rintro ⟨turns, t, new, hdone, hdev, -, hright⟩ k hk c hc
    have hfits := fits_of_done random hempty hs hn ho hdone
    refine ⟨hfits k hk c hc, hright _ ?_⟩
    -- the run is the one that serves all chains, so the entry is among the new ones
    obtain ⟨t', h, hrun, new', hdev', hnew⟩ :=
      processReq_reaches random hempty hs hn ho le_rfl hfits
    have hend := (hrun (turns + 1)).trans (processReq_done random hs hn h turns)
    have hsame := processReq_add random hdone (1 + n)
    rw [← Nat.add_assoc, hend] at hsame
    obtain rfl : t' = t := by simpa using hsame
    obtain rfl : new' = new := append_cancel_left (hdev'.symm.trans hdev)
    have hmem : some (entry s.mem c) ∈ new'.map some := by
      rw [hnew]
      exact mem_map.mpr ⟨k, mem_range.mpr hk, by rw [hc]; rfl⟩
    simpa using hmem
  · intro hsuits
    obtain ⟨t, h, hrun, new, hdev, hnew⟩ := processReq_reaches random hempty hs hn ho le_rfl
      fun k hk c hc => (hsuits k hk c hc).1
    refine ⟨1 + n, t, new, (hrun 1).trans (processReq_done random hs hn h 0), hdev, ?_, ?_⟩
    · have hindex := congrArg (map (Option.map Used.index)) hnew
      simpa [Function.comp_def, entry] using hindex
    · intro u hu
      have hmem : some u ∈ new.map some := mem_map_of_mem hu
      rw [hnew, List.mem_map] at hmem
      obtain ⟨k, hk, hentry⟩ := hmem
      obtain ⟨c, hc, rfl⟩ := map_eq_some_iff.mp hentry
      exact (hsuits k (mem_range.mp hk) c hc).2

end

/-- A chain of two buffers that the device may write. -/
def twoBuffers : ServiceState FlatMemory (List Used) :=
  { servedQueue 0 ⟨0x100, 16, 3, 1⟩ ⟨0x110, 1, 2, 0⟩ with dev := [] }

theorem requests_served_iff_two : Served (fun _ _ _ => 7) twoBuffers 1 := by
  have hplaced := servedQueue_placed 0 ⟨0x100, 16, 3, 1⟩ ⟨0x110, 1, 2, 0⟩
  have hpending : twoBuffers.pending = 1 := by decide +kernel
  have hfar : ∀ k < 1, ∀ c ∈ twoBuffers.chainAt k, ∀ d ∈ c.intoIter.collect twoBuffers.mem,
      0x100 ≤ d.addr.toNat := by decide +kernel
  refine (requests_served_iff _ (fun _ _ _ _ => rfl)
    ⟨hplaced.rings, hplaced.apartAvail, hplaced.apartTable⟩
    ⟨hpending.ge, by decide +kernel, .inl hpending.symm⟩ fun k hk c hc d hd => ?_).mpr
    fun k hk c hc => ⟨?_, ?_, ?_⟩
  · have hle := hfar k hk c hc d hd
    exact ⟨apart_of_le (.inr (show 0x80 + 14 ≤ _ by omega)),
      apart_of_le (.inr (show 0 + 64 ≤ _ by omega))⟩
  · revert k c
    decide +kernel
  · revert k c
    decide +kernel
  · revert k c
    decide +kernel

def unmapped : ServiceState FlatMemory (List Used) :=
  { servedQueue 0 ⟨0x1000, 16, 2, 0⟩ ⟨0, 0, 0, 0⟩ with dev := [] }

def unwritable : ServiceState FlatMemory (List Used) :=
  { servedQueue 0 ⟨0x100, 16, 0, 0⟩ ⟨0, 0, 0, 0⟩ with dev := [] }

/-- A chain outside of guest memory is put in the used ring and popped again; one that the device
may not write is filled all the same. -/
theorem requests_mishandled :
    (∃ head q, unmapped.queue.pop unmapped.mem = some (some head, q) ∧
      ∃ s, s = handle (fun _ _ _ => 7) head { unmapped with queue := q } ∧
        s.dev = [⟨0, 0, []⟩] ∧ (s.queue.pop s.mem).map Prod.fst = some (some head)) ∧
    ∃ head q, unwritable.queue.pop unwritable.mem = some (some head, q) ∧
      ∃ u ∈ (handle (fun _ _ _ => 7) head { unwritable with queue := q }).dev, ¬ u.Right := by
  refine ⟨⟨⟨0, 4, 4, 0, 0x1000, 16, 2, 0⟩, { smallQueue with nextAvail := 1 }, by decide +kernel,
    _, rfl, by decide +kernel, by decide +kernel⟩,
    ⟨0, 4, 4, 0, 0x100, 16, 0, 0⟩, { smallQueue with nextAvail := 1 }, by decide +kernel,
    ⟨0, 16, [⟨0, 4, 4, 0, 0x100, 16, 0, 0⟩]⟩, by decide +kernel, ?_⟩
  unfold Used.Right
  decide

end Rng

end Shelter.Virtio
