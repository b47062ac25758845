import Shelter.Virtio.Segments

/-!
# Splits, transfers and copies

What callers of `DescriptorChainConsumer` rely on, for every list of slices.

1. `splits_iff`: a split succeeds as far as there are bytes, and its parts make up the sequence
   exactly if it does not cut a slice. A slice that is cut leaves its beginning out.
2. `consume_iff`: the slices that are passed on are no longer than asked for exactly if the count
   ends with a slice, or behind all of them. What is taken is gone, and `read_exact_to` and
   `write_all_from` succeed with the requested number of bytes only.
3. `write_then_read`: what is written through one chain is read through another over the same
   bytes, however both are cut into slices and calls.
-/

open Bytes

namespace Shelter.Virtio

open List

variable {M : Type} [GuestMemory M]

open DescriptorChainConsumer

/-! ## Splitting -/

/-- The two parts are the first `offset` bytes, and the others. -/
@[mk_iff] structure Parts (l : List VolatileSlice) (offset : ℕ) (front back : List VolatileSlice) :
    Prop where
  length : (addrsOf front).length = offset
  append : addrsOf front ++ addrsOf back = addrsOf l

instance (l : List VolatileSlice) (offset : ℕ) (front back : List VolatileSlice) :
    Decidable (Parts l offset front back) :=
  decidable_of_iff' _ (parts_iff ..)

theorem VolatileSlice.addrs_eq_cons (vs : VolatileSlice) (h : 0 < vs.len) :
    ∃ rest, vs.addrs = vs.addr :: rest := by
  obtain ⟨n, hn⟩ := Nat.exists_eq_add_one_of_ne_zero h.ne'
  refine ⟨List.range' (vs.addr + 1) n, ?_⟩
  rw [VolatileSlice.addrs, hn, range'_succ]

theorem not_parts_of_cut {l rest : List VolatileSlice} {pos rem : ℕ} {vs : VolatileSlice}
    (hdrop : l.drop pos = vs :: rest) (hpos : 0 < rem) (hlt : rem < vs.len) (offset : ℕ) :
    ¬ Parts l offset (l.take pos ++ [⟨vs.addr + rem, vs.len - rem⟩])
      (⟨vs.addr + rem, vs.len - rem⟩ :: rest) := by
  rintro ⟨-, happend⟩
  have hl : addrsOf l = addrsOf (l.take pos) ++ addrsOf (vs :: rest) := by
    rw [← hdrop, ← addrsOf_append, take_append_drop]
  rw [hl, addrsOf_append, append_assoc] at happend
  have htail := append_cancel_left happend
  obtain ⟨as, has⟩ := vs.addrs_eq_cons (by omega)
  obtain ⟨bs, hbs⟩ :=
    VolatileSlice.addrs_eq_cons ⟨vs.addr + rem, vs.len - rem⟩ (Nat.sub_pos_of_lt hlt)
  simp only [addrsOf_cons, has, hbs, cons_append] at htail
  have hhead := (List.cons.inj htail).1
  omega

/-- **Splits.** A split succeeds exactly if the offset is not behind the end, and then its parts are
the bytes before the offset and the others exactly if no slice is cut. A `Reader` and a `Writer`
split as their buffers do. -/
theorem splits_iff (c : DescriptorChainConsumer) (offset : ℕ) :
    ((∃ c₁ c₂, c.splitAt offset = .ok (c₁, c₂)) ↔ offset ≤ c.availableBytes) ∧
    (∀ c₁ c₂, c.splitAt offset = .ok (c₁, c₂) →
      (Parts c.buffers offset c₁.buffers c₂.buffers ↔ Boundary offset c.buffers)) ∧
    (∀ r₁ r₂, Reader.splitAt ⟨c⟩ offset = .ok (r₁, r₂) ↔
      c.splitAt offset = .ok (r₁.buffer, r₂.buffer)) ∧
    (∀ w₁ w₂, Writer.splitAt ⟨c⟩ offset = .ok (w₁, w₂) ↔
      c.splitAt offset = .ok (w₁.buffer, w₂.buffer)) := by
  have hwithin : ∀ {c₁ c₂}, c.splitAt offset = .ok (c₁, c₂) →
      offset ≤ (addrsOf c.buffers).length := by
    intro c₁ c₂ hsplit
    by_contra hlt
    cases (splitAt_short (not_le.mp hlt)).symm.trans hsplit
  rw [c.availableBytes_eq]
  refine ⟨⟨fun ⟨_, _, hsplit⟩ => hwithin hsplit, ?_⟩, ?_, ?_, ?_⟩
  · intro hle
    by_cases hb : Boundary offset c.buffers
    · obtain ⟨c₁, c₂, hsplit, -⟩ := splitAt_boundary hb
      exact ⟨c₁, c₂, hsplit⟩
    · obtain ⟨pos, vs, rest, rem, -, -, -, -, hsplit⟩ := splitAt_cut hb hle
      exact ⟨_, _, hsplit⟩
  · intro c₁ c₂ hsplit
    by_cases hb : Boundary offset c.buffers
    · obtain ⟨d₁, d₂, hd, hfront, hback, -, -⟩ := splitAt_boundary hb
      cases hsplit.symm.trans hd
      refine iff_of_true ⟨?_, ?_⟩ hb
      · rw [hfront, length_take, min_eq_left (hwithin hsplit)]
      · rw [hfront, hback, take_append_drop]
    · refine iff_of_false ?_ hb
      obtain ⟨pos, vs, rest, rem, hdrop, hpos, hlt, -, hcut⟩ := splitAt_cut hb (hwithin hsplit)
      cases hsplit.symm.trans hcut
      exact not_parts_of_cut hdrop hpos hlt offset
  · rintro ⟨c₁⟩ ⟨c₂⟩
    unfold Reader.splitAt
    rcases c.splitAt offset with e | ⟨d₁, d₂⟩ <;> simp [Except.map]
  · rintro ⟨c₁⟩ ⟨c₂⟩
    unfold Writer.splitAt
    rcases c.splitAt offset with e | ⟨d₁, d₂⟩ <;> simp [Except.map]

/-- A split at the end of the first slice. -/
theorem splits_between :
    (DescriptorChainConsumer.mk [⟨0x100, 4⟩, ⟨0x200, 0⟩, ⟨0x104, 6⟩] 0).splitAt 4 =
        .ok (⟨[⟨0x100, 4⟩, ⟨0x200, 0⟩], 0⟩, ⟨[⟨0x104, 6⟩], 0⟩) ∧
      Parts [⟨0x100, 4⟩, ⟨0x200, 0⟩, ⟨0x104, 6⟩] 4 [⟨0x100, 4⟩, ⟨0x200, 0⟩] [⟨0x104, 6⟩] :=
  ⟨by decide, ((splits_iff ⟨[⟨0x100, 4⟩, ⟨0x200, 0⟩, ⟨0x104, 6⟩], 0⟩ 4).2.1
    ⟨[⟨0x100, 4⟩, ⟨0x200, 0⟩], 0⟩ ⟨[⟨0x104, 6⟩], 0⟩ (by decide)).mpr (by decide)⟩

/-- Ten bytes at 0x100, split after four: both parts are the last six. -/
theorem split_inside_slice :
    (DescriptorChainConsumer.mk [⟨0x100, 10⟩] 0).splitAt 4 =
        .ok (⟨[⟨0x104, 6⟩], 0⟩, ⟨[⟨0x104, 6⟩], 0⟩) ∧
      ¬ Parts [⟨0x100, 10⟩] 4 [⟨0x104, 6⟩] [⟨0x104, 6⟩] := by
  decide

/-! ## Consuming -/

theorem boundary_cons {offset : ℕ} {vs : VolatileSlice} {l : List VolatileSlice} :
    Boundary offset (vs :: l) ↔ offset = 0 ∨ vs.len ≤ offset ∧ Boundary (offset - vs.len) l := by
  constructor
  · rintro ⟨_ | k, hk, hlen⟩
    · exact .inl hlen.symm
    · rw [take_succ_cons, addrsOf_cons, length_append, vs.length_addrs] at hlen
      exact .inr ⟨by omega, k, Nat.le_of_succ_le_succ hk, by omega⟩
  · rintro (rfl | ⟨hle, k, hk, hlen⟩)
    · exact ⟨0, Nat.zero_le _, rfl⟩
    · refine ⟨k + 1, Nat.succ_le_succ hk, ?_⟩
      rw [take_succ_cons, addrsOf_cons, length_append, vs.length_addrs]
      omega

/-- The slices that are passed on are as long as asked for, unless they end in the middle of a
slice. -/
theorem takeBuffers_le_iff {count buflen : ℕ} (h : buflen ≤ count) (l : List VolatileSlice) :
    (addrsOf (takeBuffers count buflen l)).length ≤ count - buflen ↔
      Boundary (count - buflen) l ∨ (addrsOf l).length ≤ count - buflen := by
  induction l generalizing buflen with
  | nil => exact iff_of_true (Nat.zero_le _) (.inr (Nat.zero_le _))
  | cons vs rest ih =>
    unfold takeBuffers
    split_ifs with hend
    · exact iff_of_true (Nat.zero_le _) (.inl (boundary_cons.mpr (.inl (by omega))))
    · simp only [addrsOf_cons, length_append, vs.length_addrs, boundary_cons]
      by_cases hcut : count - buflen < vs.len
      · -- the slice is passed on whole
        refine iff_of_false (by omega) ?_
        rintro ((h0 | ⟨hle, -⟩) | hle) <;> omega
      · rw [if_neg hcut]
        have hrest := ih (show buflen + vs.len ≤ count by omega)
        rw [Nat.sub_add_eq] at hrest
        constructor
        · intro hle
          rcases hrest.mp (by omega) with hb | hb
          · exact .inl (.inr ⟨by omega, hb⟩)
          · exact .inr (by omega)
        · rintro ((h0 | ⟨-, hb⟩) | hle)
          · omega
          · have := hrest.mpr (.inl hb)
            omega
          · have := hrest.mpr (.inr (by omega))
            omega

namespace DescriptorChainConsumer

def Bounded (f : List VolatileSlice → Except IoError ℕ) : Prop :=
  ∀ bufs n, f bufs = .ok n → n ≤ (addrsOf bufs).length

/-- What is left when `n` bytes are consumed. -/
structure Consumed (c : DescriptorChainConsumer) (n : ℕ) (c' : DescriptorChainConsumer) : Prop where
  enough : n ≤ c.availableBytes
  buffers : addrsOf c'.buffers = (addrsOf c.buffers).drop n
  count : c'.bytesConsumed = c.bytesConsumed + n

theorem Consumed.refl (c : DescriptorChainConsumer) : c.Consumed 0 c :=
  ⟨Nat.zero_le _, rfl, rfl⟩

theorem Consumed.trans {c c' c'' : DescriptorChainConsumer} {n k : ℕ} (h : c.Consumed n c')
    (h' : c'.Consumed k c'') : c.Consumed (n + k) c'' := by
  obtain ⟨hn, hb, hc⟩ := h
  obtain ⟨hk, hb', hc'⟩ := h'
  refine ⟨?_, ?_, ?_⟩
  · rw [availableBytes_eq] at hn hk ⊢
    rw [hb, length_drop] at hk
    omega
  · rw [hb', hb, drop_drop]
  · rw [hc', hc, add_assoc]

theorem Consumed.total {c c' : DescriptorChainConsumer} {n : ℕ} (h : c.Consumed n c') :
    c'.bytesConsumed + c'.availableBytes = c.bytesConsumed + c.availableBytes := by
  have hn := h.enough
  rw [availableBytes_eq] at hn
  rw [availableBytes_eq, availableBytes_eq, h.buffers, h.count, length_drop]
  omega

theorem consume_snd {A : Type} (c : DescriptorChainConsumer) (count : ℕ) (idle : A)
    (f : List VolatileSlice → A × Except IoError ℕ) :
    (c.consume count idle f).2 = (c.consume count () fun bufs => ((), (f bufs).2)).2 := by
  unfold consume
  simp only
  split
  · rfl
  · rcases f (takeBuffers count 0 c.buffers) with ⟨effect, e | n⟩
    · rfl
    · simp only
      split <;> rfl

theorem consume_ends {A : Type} (c : DescriptorChainConsumer) (count : ℕ) (idle : A)
    {f : List VolatileSlice → A × Except IoError ℕ} (hf : Bounded fun bufs => (f bufs).2) :
    (∃ e, (c.consume count idle f).2 = (.error e, c) ∧
        (e = .invalidData ∨ ∃ bufs, (f bufs).2 = .error e)) ∨
      ∃ n c', (c.consume count idle f).2 = (.ok n, c') ∧ c.Consumed n c' ∧
        (n = 0 ∨ c'.bytesConsumed < 2 ^ 64) := by
  unfold consume
  simp only
  split
  · exact .inr ⟨0, c, rfl, .refl c, .inl rfl⟩
  · have hle := hf (takeBuffers count 0 c.buffers)
    have hpre := (takeBuffers_spec count 0 c.buffers).1.length_le
    rcases hx : f (takeBuffers count 0 c.buffers) with ⟨effect, e | n⟩
    · exact .inl ⟨e, rfl, .inr ⟨_, congrArg Prod.snd hx⟩⟩
    · simp only
      split_ifs with hlt
      · refine .inr ⟨n, _, rfl, ⟨?_, addrsOf_dropBytes n c.buffers, rfl⟩, .inr hlt⟩
        rw [availableBytes_eq]
        exact (hle n (congrArg Prod.snd hx)).trans hpre
      · exact .inl ⟨.invalidData, rfl, .inl rfl⟩

/-- The loop that `read_exact_to` and `write_all_from` share: `eof` is the error if nothing is
taken. -/
def transferAll (eof : IoError) : List (List VolatileSlice → Except IoError ℕ) → U64 →
    DescriptorChainConsumer → Option (Except IoError Unit) × DescriptorChainConsumer
  | [], count, c => (if count = 0 then some (.ok ()) else none, c)
  | f :: fs, count, c =>
    if count = 0 then (some (.ok ()), c)
    else
      match (c.consume count.toNat () fun bufs => ((), f bufs)).2 with
      | (.ok 0, c') => (some (.error eof), c')
      | (.ok n, c') => transferAll eof fs (count - BitVec.ofNat 64 n) c'
      | (.error .interrupted, c') => transferAll eof fs count c'
      | (.error e, c') => (some (.error e), c')

section TransferAll

variable {eof : IoError} {f : List VolatileSlice → Except IoError ℕ}
  {fs : List (List VolatileSlice → Except IoError ℕ)} {count : U64} {c c' : DescriptorChainConsumer}

theorem transferAll_zero (eof : IoError) (fs : List (List VolatileSlice → Except IoError ℕ))
    (c : DescriptorChainConsumer) : transferAll eof fs 0 c = (some (.ok ()), c) := by
  cases fs <;> rfl

theorem transferAll_cons (eof : IoError) (hf : Bounded f)
    (fs : List (List VolatileSlice → Except IoError ℕ)) (hcount : count ≠ 0)
    (c : DescriptorChainConsumer) :
    (∃ e c', transferAll eof (f :: fs) count c = (some (.error e), c')) ∨
    (transferAll eof (f :: fs) count c = transferAll eof fs count c ∧
      ∃ bufs, f bufs = .error .interrupted) ∨
    ∃ n c', 0 < n ∧ c.Consumed n c' ∧ c'.bytesConsumed < 2 ^ 64 ∧
      transferAll eof (f :: fs) count c = transferAll eof fs (count - BitVec.ofNat 64 n) c' := by
  have hends := consume_ends c count.toNat () (f := fun bufs => ((), f bufs)) hf
  rw [transferAll, if_neg hcount]
  rcases hends with ⟨e, he, hwhy⟩ | ⟨n, c', hn, hcons, hlt⟩
  · rw [he]
    cases e with
    | interrupted => exact .inr (.inl ⟨rfl, hwhy.resolve_left (by decide)⟩)
    | invalidData | unexpectedEof | writeZero | other => exact .inl ⟨_, _, rfl⟩
  · rw [hn]
    rcases n with _ | n
    · exact .inl ⟨_, _, rfl⟩
    · exact .inr (.inr ⟨n + 1, c', Nat.succ_pos n, hcons, hlt.resolve_left n.succ_ne_zero, rfl⟩)

/-- A loop that returns has taken as many bytes as asked for. After a turn that took too many the
count has wrapped, and it cannot come back to zero as there are less than 2^64 bytes. -/
theorem transferAll_consumed (hf : ∀ f ∈ fs, Bounded f)
    (h : transferAll eof fs count c = (some (.ok ()), c')) :
    ∃ n, c.Consumed n c' ∧ BitVec.ofNat 64 n = count ∧ (n = 0 ∨ c'.bytesConsumed < 2 ^ 64) := by
  induction fs generalizing count c with
  | nil =>
    unfold transferAll at h
    split_ifs at h with hcount <;> cases h
    exact ⟨0, .refl _, hcount.symm, .inl rfl⟩
  | cons f fs ih =>
    by_cases hcount : count = 0
    · rw [hcount, transferAll_zero] at h
      cases h
      exact ⟨0, .refl _, hcount.symm, .inl rfl⟩
    obtain ⟨hfirst, hrest⟩ := forall_mem_cons.mp hf
    rcases transferAll_cons eof hfirst fs hcount c with
      ⟨e, c₁, he⟩ | ⟨he, -⟩ | ⟨n, c₁, hpos, hcons, hlt, he⟩
    · cases he.symm.trans h
    · exact ih hrest (he.symm.trans h)
    · obtain ⟨k, hk, hword, hbound⟩ := ih hrest (he.symm.trans h)
      refine ⟨n + k, hcons.trans hk, ?_, .inr ?_⟩
      · rw [BitVec.ofNat_add, hword]
        bv_omega
      · rcases hbound with rfl | hbound
        · rw [hk.count]
          exact hlt
        · exact hbound

theorem transferAll_ok (hf : ∀ f ∈ fs, Bounded f)
    (h : transferAll eof fs count c = (some (.ok ()), c')) : c.Consumed count.toNat c' := by
  obtain ⟨n, hcons, hword, hbound⟩ := transferAll_consumed hf h
  have hn : n < 2 ^ 64 := by
    have := hcons.count
    omega
  have htoNat : count.toNat = n := by
    rw [← hword, BitVec.toNat_ofNat, Nat.mod_eq_of_lt hn]
  rwa [htoNat]

/-- Every turn that is not interrupted and does not end the loop takes a byte or more. -/
theorem transferAll_isSome (eof : IoError) (count : U64) (hf : ∀ f ∈ fs, Bounded f)
    (hint : ∀ f ∈ fs, ∀ bufs, f bufs ≠ .error .interrupted) (h : c.availableBytes < fs.length) :
    (transferAll eof fs count c).1.isSome := by
  induction fs generalizing count c with
  | nil => cases h
  | cons f fs ih =>
    by_cases hcount : count = 0
    · rw [hcount, transferAll_zero]
      rfl
    obtain ⟨hfirst, hrest⟩ := forall_mem_cons.mp hf
    obtain ⟨hnever, hnevers⟩ := forall_mem_cons.mp hint
    rcases transferAll_cons eof hfirst fs hcount c with
      ⟨e, c₁, he⟩ | ⟨he, bufs, hb⟩ | ⟨n, c₁, hpos, hcons, -, he⟩
    · rw [he]
      rfl
    · exact absurd hb (hnever bufs)
    · rw [he]
      refine ih _ hrest hnevers ?_
      have htotal := hcons.total
      have hcount' := hcons.count
      rw [length_cons] at h
      omega

end TransferAll

end DescriptorChainConsumer

theorem Reader.readExactTo_eq (dsts : List Sink) (count : U64) (r : Reader) :
    ((Reader.readExactTo dsts count r).2.1, (Reader.readExactTo dsts count r).2.2.buffer) =
      transferAll .unexpectedEof dsts count r.buffer := by
  induction dsts generalizing count r with
  | nil => rfl
  | cons dst dsts ih =>
    have hsnd := r.buffer.consume_snd count.toNat ([] : List VolatileSlice)
      fun bufs => (bufs, dst bufs)
    unfold Reader.readExactTo transferAll Reader.readTo
    rw [← hsnd]
    split_ifs with hcount
    · rfl
    rcases r.buffer.consume count.toNat ([] : List VolatileSlice) (fun bufs => (bufs, dst bufs))
      with ⟨ranges, e | ⟨_ | n⟩, c'⟩
    · cases e with
      | interrupted => exact ih count ⟨c'⟩
      | invalidData | unexpectedEof | writeZero | other => rfl
    · rfl
    · exact ih _ ⟨c'⟩

theorem Writer.writeAllFrom_eq (srcs : List Source) (count : U64) (w : Writer) (m : M) :
    ((Writer.writeAllFrom srcs count w m).2.1, (Writer.writeAllFrom srcs count w m).2.2.buffer) =
      transferAll .writeZero (srcs.map fun src bufs => (src bufs).2) count w.buffer := by
  induction srcs generalizing count w m with
  | nil => rfl
  | cons src srcs ih =>
    have hsnd := w.buffer.consume_snd count.toNat (⟨m, []⟩ : WriteEffect M)
      fun bufs => ((copyIn (src bufs).1 m bufs).1, (src bufs).2)
    unfold Writer.writeAllFrom Writer.writeFrom
    rw [map_cons]
    unfold transferAll
    rw [← hsnd]
    split_ifs with hcount
    · rfl
    rcases w.buffer.consume count.toNat (⟨m, []⟩ : WriteEffect M)
      (fun bufs => ((copyIn (src bufs).1 m bufs).1, (src bufs).2)) with ⟨e, err | ⟨_ | n⟩, c'⟩
    · cases err with
      | interrupted => exact ih count ⟨c'⟩ e.mem
      | invalidData | unexpectedEof | writeZero | other => rfl
    · rfl
    · exact ih _ ⟨c'⟩ e.mem

theorem DescriptorChainConsumer.consume_passed (c : DescriptorChainConsumer) (count : ℕ)
    (f : List VolatileSlice → Except IoError ℕ) :
    (c.consume count [] fun bufs => (bufs, f bufs)).1 = takeBuffers count 0 c.buffers := by
  unfold consume
  by_cases hnil : takeBuffers count 0 c.buffers = []
  · simp [hnil]
  · have hemp : (takeBuffers count 0 c.buffers).isEmpty = false := by simpa using hnil
    simp only [hemp]
    rcases f (takeBuffers count 0 c.buffers) with e | n
    · rfl
    · simp only [Bool.false_eq_true, if_false]
      split <;> rfl

/-- **Transfers.** For every transfer that takes no more than it is given, the slices it sees begin
the sequence, and are no longer than `count` exactly if `count` ends with one of the slices or
behind all of them. On an error nothing is consumed, and otherwise exactly what was taken. The loops
of `read_exact_to` and `write_all_from` return only if they took the requested number of bytes, and
do not need more turns than there are bytes. -/
theorem consume_iff (c : DescriptorChainConsumer) (count : U64)
    {f : List VolatileSlice → Except IoError ℕ} (hf : Bounded f) :
    (∀ passed, (c.consume count.toNat [] fun bufs => (bufs, f bufs)).1 = passed →
      addrsOf passed <+: addrsOf c.buffers ∧
      ((addrsOf passed).length ≤ count.toNat ↔
        Boundary count.toNat c.buffers ∨ c.availableBytes ≤ count.toNat)) ∧
    (∀ result c', (c.consume count.toNat [] fun bufs => (bufs, f bufs)).2 = (result, c') →
      match result with
      | .error _ => c' = c
      | .ok n => c.Consumed n c' ∧
          c'.bytesConsumed + c'.availableBytes = c.bytesConsumed + c.availableBytes) ∧
    (∀ dsts : List Sink, (∀ dst ∈ dsts, Bounded dst) →
      ((Reader.readExactTo dsts count ⟨c⟩).2.1 = some (.ok ()) →
        c.Consumed count.toNat (Reader.readExactTo dsts count ⟨c⟩).2.2.buffer) ∧
      ((∀ dst ∈ dsts, ∀ bufs, dst bufs ≠ .error .interrupted) → c.availableBytes < dsts.length →
        (Reader.readExactTo dsts count ⟨c⟩).2.1.isSome)) ∧
    (∀ (srcs : List Source) (m : M), (∀ src ∈ srcs, Bounded fun bufs => (src bufs).2) →
      ((Writer.writeAllFrom srcs count ⟨c⟩ m).2.1 = some (.ok ()) →
        c.Consumed count.toNat (Writer.writeAllFrom srcs count ⟨c⟩ m).2.2.buffer) ∧
      ((∀ src ∈ srcs, ∀ bufs, (src bufs).2 ≠ .error .interrupted) →
        c.availableBytes < srcs.length →
        (Writer.writeAllFrom srcs count ⟨c⟩ m).2.1.isSome)) := by
  refine ⟨?_, ?_, ?_, ?_⟩
  · rintro passed rfl
    have hle := takeBuffers_le_iff (Nat.zero_le count.toNat) c.buffers
    rw [consume_passed, c.availableBytes_eq]
    exact ⟨(takeBuffers_spec count.toNat 0 c.buffers).1, hle⟩
  · intro result c' hout
    rcases consume_ends c count.toNat ([] : List VolatileSlice)
      (f := fun bufs => (bufs, f bufs)) hf with ⟨e, he, -⟩ | ⟨n, c'', hn, hcons, -⟩
    · cases hout.symm.trans he
      rfl
    · cases hout.symm.trans hn
      exact ⟨hcons, hcons.total⟩
  · intro dsts hdsts
    have heq := Reader.readExactTo_eq dsts count ⟨c⟩
    constructor
    · intro hok
      rw [hok] at heq
      exact transferAll_ok hdsts heq.symm
    · intro hint hlen
      have hsome := transferAll_isSome .unexpectedEof count hdsts hint hlen
      rwa [← heq] at hsome
  · intro srcs m hsrcs
    have heq := Writer.writeAllFrom_eq srcs count ⟨c⟩ m
    constructor
    · intro hok
      rw [hok] at heq
      exact transferAll_ok (forall_mem_map.mpr hsrcs) heq.symm
    · intro hint hlen
      have hsome := transferAll_isSome .writeZero count (forall_mem_map.mpr hsrcs)
        (forall_mem_map.mpr hint) (by rwa [length_map])
      rwa [← heq] at hsome

/-- Four bytes are asked for of a file that takes all it is given. -/
def takesAll : Sink := fun bufs => .ok (addrsOf bufs).length

theorem takesAll_bounded : Bounded takesAll := by
  rintro bufs n ⟨⟩
  exact le_refl _

/-- Eight bytes in two slices; the first four are transferred, and the other four are left. -/
theorem consume_first_slice :
    (Reader.readExactTo [takesAll] 4 ⟨⟨[⟨0x100, 4⟩, ⟨0x200, 4⟩], 0⟩⟩).2.1 = some (.ok ()) ∧
      DescriptorChainConsumer.Consumed ⟨[⟨0x100, 4⟩, ⟨0x200, 4⟩], 0⟩ 4
        (Reader.readExactTo [takesAll] 4 ⟨⟨[⟨0x100, 4⟩, ⟨0x200, 4⟩], 0⟩⟩).2.2.buffer :=
  ⟨by decide, ((consume_iff (M := FlatMemory) ⟨[⟨0x100, 4⟩, ⟨0x200, 4⟩], 0⟩ 4
    takesAll_bounded).2.2.1 [takesAll] (forall_mem_singleton.mpr takesAll_bounded)).1 (by decide)⟩

/-- Of one slice of eight bytes all are passed on, and `read_exact_to` fails after it has
transferred eight bytes where four were asked for. -/
theorem more_than_count_passed :
    (DescriptorChainConsumer.consume ⟨[⟨0x100, 8⟩], 0⟩ 4 [] fun bufs => (bufs, takesAll bufs)) =
        ([⟨0x100, 8⟩], .ok 8, ⟨[], 8⟩) ∧
      Reader.readExactTo [takesAll, takesAll] 4 ⟨⟨[⟨0x100, 8⟩], 0⟩⟩ =
        ([⟨0x100, 8⟩], some (.error .unexpectedEof), ⟨⟨[], 8⟩⟩) := by
  decide

/-! ## Writing and reading back -/

/-- Successive calls of `write`. -/
def Writer.writes (w : Writer) (m : M) : List (List Byte) → List (Except IoError ℕ) × M × Writer
  | [] => ([], m, w)
  | buf :: bufs =>
    let (e, res, w') := w.write m buf
    let (results, m', w'') := Writer.writes w' e.mem bufs
    (res :: results, m', w'')

/-- Successive calls of `read`, by the lengths of their buffers: the bytes and the results. -/
def Reader.reads (r : Reader) (m : M) : List ℕ → List (List Byte × Except IoError ℕ) × Reader
  | [] => ([], r)
  | n :: ns =>
    let (e, res, r') := r.read m n
    let (results, r'') := Reader.reads r' m ns
    ((e.data, res) :: results, r'')

theorem take_append_take_drop (as : List ℕ) (n k : ℕ) :
    as.take n ++ (as.drop (min n as.length)).take k = as.take (n + k) := by
  rw [take_add]
  rcases le_total n as.length with hle | hle
  · rw [min_eq_left hle]
  · rw [min_eq_right hle, drop_length, drop_eq_nil_of_le hle]

theorem Writer.writes_filled [LawfulGuestMemory M] {w : Writer} {m : M} (hw : w.Usable m)
    (bufs : List (List Byte)) :
    ∃ (counts : List ℕ) (m' : M) (w' : Writer), w.writes m bufs = (counts.map .ok, m', w') ∧
      counts.sum = min bufs.flatten.length w.addrs.length ∧
      Filled (w.addrs.take bufs.flatten.length) (bufs.flatten.take w.addrs.length) m m' ∧
      w.After counts.sum w' := by
  induction bufs generalizing w m with
  | nil =>
    refine ⟨[], m, w, rfl, (zero_min _).symm, ?_, after_zero hw.counted⟩
    rw [flatten_nil, length_nil, take_zero, take_nil]
    exact .refl m
  | cons buf bufs ih =>
    obtain ⟨e, w₁, hwrite, hfilled, hafter⟩ := write_filled hw buf
    obtain ⟨counts, m', w', hwrites, hsum, hrest, hafter'⟩ := ih (hafter.usable hw hfilled.layout)
    have hlen : w₁.addrs.length = w.addrs.length - buf.length := by
      rw [hafter.addrs, length_drop]
      omega
    refine ⟨min buf.length w.addrs.length :: counts, m', w', ?_, ?_, ?_, ?_⟩
    · simp only [writes, hwrite, hwrites, map_cons]
    · rw [sum_cons, hsum, hlen, flatten_cons, length_append]
      omega
    · have hall := hfilled.append hrest
      rw [hlen, hafter.addrs, take_append_take_drop, ← take_append] at hall
      rwa [flatten_cons, length_append]
    · rw [sum_cons]
      exact hafter.trans hafter'

theorem Reader.reads_spec {r : Reader} (hr : r.buffer.Counted) (m : M) (ns : List ℕ) :
    ∃ (out : List (List Byte × ℕ)) (r' : Reader),
      r.reads m ns = (out.map fun o => (o.1, .ok o.2), r') ∧
      (out.map Prod.fst).flatten = contents m (r.addrs.take ns.sum) ∧
      (out.map Prod.snd).sum = min ns.sum r.addrs.length ∧
      r.After (out.map Prod.snd).sum r' := by
  induction ns generalizing r with
  | nil =>
    exact ⟨[], r, rfl, rfl, (zero_min _).symm, after_zero hr⟩
  | cons n ns ih =>
    obtain ⟨ranges, r₁, hread, hafter⟩ := read_spec hr m n
    obtain ⟨out, r', hreads, hdata, hsum, hafter'⟩ := ih hafter.counted
    have hlen : r₁.addrs.length = r.addrs.length - n := by
      rw [hafter.addrs, length_drop]
      omega
    refine ⟨(contents m (r.addrs.take n), min n r.addrs.length) :: out, r', ?_, ?_, ?_, ?_⟩
    · simp only [reads, hread, hreads, map_cons]
    · rw [map_cons, flatten_cons, hdata, hafter.addrs, sum_cons,
        ← take_append_take_drop, contents, contents, contents, map_append]
    · rw [map_cons, sum_cons, hsum, hlen, sum_cons]
      omega
    · rw [map_cons, sum_cons]
      exact hafter.trans hafter'

/-- **Round trip.** A writer and a reader of two chains over the same bytes, none of which occurs
twice. Whatever is written in any number of calls, the counts add up to the length that fits and
`bytes_written` and `available_bytes` go along; and any calls of `read` for no more than was written
deliver its beginning, with counts that add up and `bytes_read` and `available_bytes` going
along. -/
theorem write_then_read [LawfulGuestMemory M] {m m₁ : M} {writable readable : DescriptorChain}
    {w : Writer} {r : Reader} (hw : Writer.new m writable = .ok w)
    (hr : Reader.new m₁ readable = .ok r) (hsame : r.addrs = w.addrs) (hnodup : w.addrs.Nodup)
    (bufs : List (List Byte)) :
    ∃ (written : List ℕ) (m' : M) (w' : Writer), w.writes m bufs = (written.map .ok, m', w') ∧
      written.sum = min bufs.flatten.length w.availableBytes ∧ w'.bytesWritten = written.sum ∧
      w'.availableBytes = w.availableBytes - written.sum ∧
      ∀ ns : List ℕ, ns.sum ≤ bufs.flatten.length →
        ∃ (out : List (List Byte × ℕ)) (r' : Reader),
          r.reads m' ns = (out.map fun o => (o.1, .ok o.2), r') ∧
          (out.map Prod.fst).flatten = (bufs.flatten.take w.availableBytes).take ns.sum ∧
          (out.map Prod.snd).sum = min ns.sum w.availableBytes ∧
          r'.bytesRead = (out.map Prod.snd).sum ∧
          r'.availableBytes = w.availableBytes - (out.map Prod.snd).sum := by
  obtain ⟨husable, hzero⟩ := Writer.new_usable hw
  have hread0 : r.bytesRead = 0 := by
    unfold Reader.new at hr
    split at hr
    · cases hr
    · cases hr
      rfl
  obtain ⟨written, m', w', hwrites, hsum, hfilled, hafter⟩ := Writer.writes_filled husable bufs
  have hstored := hfilled.stored (hnodup.sublist (take_sublist _ _))
  refine ⟨written, m', w', hwrites, ?_, ?_, ?_, ?_⟩
  · rw [w.availableBytes_eq, hsum]
  · rw [hafter.written, hzero, zero_add]
  · rw [w'.availableBytes_eq, w.availableBytes_eq, hafter.addrs, length_drop]
  · intro ns hns
    obtain ⟨out, r', hreads, hdata, hcount, hafter'⟩ :=
      Reader.reads_spec (Reader.new_counted hr) m' ns
    refine ⟨out, r', hreads, ?_, ?_, ?_, ?_⟩
    · have hbytes := congrArg (List.take ns.sum) hstored.bytes
      rw [contents, ← map_take, take_take, min_eq_left hns] at hbytes
      rw [hdata, hsame, w.availableBytes_eq, ← hbytes, contents]
    · rw [hcount, hsame, w.availableBytes_eq]
    · rw [hafter'.read, hread0, zero_add]
    · rw [r'.availableBytes_eq, w.availableBytes_eq, hafter'.addrs, length_drop, hsame]

/-- Eight bytes at 0x100, as two writable descriptors and as one readable. -/
def twoWays : FlatMemory :=
  (FlatMemory.zeroed [⟨0, 0x120⟩] (by decide)).put 0 (Descriptor.toBytes ⟨0x100, 3, 3, 1⟩ ++
    Descriptor.toBytes ⟨0x103, 5, 2, 0⟩ ++ Descriptor.toBytes ⟨0x100, 8, 0, 0⟩)

def twoWaysChain (index : U16) : DescriptorChain :=
  (DescriptorChain.checkedNew twoWays 0 4 index).getD ⟨0, 0, 0, 0, 0, 0, 0, 0⟩

theorem write_then_read_twoWays :
    (Writer.new twoWays (twoWaysChain 0) = .ok ⟨⟨[⟨0x100, 3⟩, ⟨0x103, 5⟩], 0⟩⟩ ∧
      Reader.new twoWays (twoWaysChain 2) = .ok ⟨⟨[⟨0x100, 8⟩], 0⟩⟩) ∧
    ∃ (written : List ℕ) (m' : FlatMemory) (w' : Writer),
      (Writer.mk ⟨[⟨0x100, 3⟩, ⟨0x103, 5⟩], 0⟩).writes twoWays [[1, 2], [3, 4, 5, 6], [7, 8, 9]] =
        (written.map .ok, m', w') ∧ written.sum = 8 ∧
      ∃ (out : List (List Byte × ℕ)) (r' : Reader),
        (Reader.mk ⟨[⟨0x100, 8⟩], 0⟩).reads m' [5, 4] = (out.map fun o => (o.1, .ok o.2), r') ∧
        (out.map Prod.fst).flatten = [1, 2, 3, 4, 5, 6, 7, 8] := by
  have hw : Writer.new twoWays (twoWaysChain 0) = .ok ⟨⟨[⟨0x100, 3⟩, ⟨0x103, 5⟩], 0⟩⟩ := by
    decide +kernel
  have hr : Reader.new twoWays (twoWaysChain 2) = .ok ⟨⟨[⟨0x100, 8⟩], 0⟩⟩ := by decide +kernel
  obtain ⟨written, m', w', hwrites, hsum, -, -, hreads⟩ :=
    write_then_read hw hr (by decide) (by decide) [[1, 2], [3, 4, 5, 6], [7, 8, 9]]
  obtain ⟨out, r', hout, hdata, -⟩ := hreads [5, 4] (by decide)
  exact ⟨⟨hw, hr⟩, written, m', w', hwrites, hsum, out, r', hout, hdata⟩

end Shelter.Virtio
