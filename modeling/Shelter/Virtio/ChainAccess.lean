import Mathlib.Data.List.TakeWhile
import Shelter.Lib.Run
import Shelter.Virtio.DescriptorUtils

/-!
# What a device touches of a chain

A device makes readers and writers over a chain, splits and clones them, and reads and writes
through any of them in any order. `chain_accesses_confined` is about every such sequence: what is
read are bytes of descriptors without the `WRITE` flag, and what is written are bytes of the
descriptors from the first one with the flag on.
-/

open Bytes Run

namespace Shelter.Virtio

open List

variable {M : Type} [GuestMemory M]

/-- The readers and writers over a chain, the memory, and what was read and written so far. -/
structure ChainUse (M : Type) where
  mem : M
  readers : List Reader
  writers : List Writer
  reads : List VolatileSlice
  writes : List VolatileSlice

/-- The operations on reader or writer `i`. A split or a clone adds one at the end. -/
inductive UseOp
  | read (i n : ℕ)
  | readObj (i n : ℕ)
  | readTo (i : ℕ) (dst : Sink) (count : ℕ)
  | readExactTo (i : ℕ) (dsts : List Sink) (count : U64)
  | splitReader (i offset : ℕ)
  | cloneReader (i : ℕ)
  | write (i : ℕ) (buf : List Byte)
  | writeAll (i : ℕ) (buf : List Byte)
  | writeFrom (i : ℕ) (src : Source) (count : ℕ)
  | writeAllFrom (i : ℕ) (srcs : List Source) (count : U64)
  | splitWriter (i offset : ℕ)
  | cloneWriter (i : ℕ)

namespace ChainUse

def start (m : M) (readers : List Reader) (writers : List Writer) : ChainUse M :=
  ⟨m, readers, writers, [], []⟩

variable (s : ChainUse M)

/-- Reader `i` reads these ranges and goes on as another. -/
def withReader (i : ℕ) (f : Reader → List VolatileSlice × Reader) : ChainUse M :=
  match s.readers[i]? with
  | none => s
  | some r => { s with readers := s.readers.set i (f r).2, reads := s.reads ++ (f r).1 }

/-- Writer `i` has this effect and goes on as another. -/
def withWriter (i : ℕ) (f : Writer → WriteEffect M × Writer) : ChainUse M :=
  match s.writers[i]? with
  | none => s
  | some w =>
    { s with
      mem := (f w).1.mem, writers := s.writers.set i (f w).2, writes := s.writes ++ (f w).1.ranges }

def splitReader (i offset : ℕ) : ChainUse M :=
  match s.readers[i]? with
  | none => s
  | some r =>
    match r.splitAt offset with
    | .error _ => s
    | .ok (r₁, r₂) => { s with readers := s.readers.set i r₁ ++ [r₂] }

def splitWriter (i offset : ℕ) : ChainUse M :=
  match s.writers[i]? with
  | none => s
  | some w =>
    match w.splitAt offset with
    | .error _ => s
    | .ok (w₁, w₂) => { s with writers := s.writers.set i w₁ ++ [w₂] }

def step : UseOp → ChainUse M
  | .read i n => s.withReader i fun r => ((r.read s.mem n).1.ranges, (r.read s.mem n).2.2)
  | .readObj i n => s.withReader i fun r => ((r.readObj s.mem n).1.ranges, (r.readObj s.mem n).2.2)
  | .readTo i dst count =>
    s.withReader i fun r => ((r.readTo dst count).1, (r.readTo dst count).2.2)
  | .readExactTo i dsts count =>
    s.withReader i fun r => ((r.readExactTo dsts count).1, (r.readExactTo dsts count).2.2)
  | .splitReader i offset => s.splitReader i offset
  | .cloneReader i => { s with readers := s.readers ++ (s.readers[i]?).toList }
  | .write i buf => s.withWriter i fun w => ((w.write s.mem buf).1, (w.write s.mem buf).2.2)
  | .writeAll i buf =>
    s.withWriter i fun w => ((w.writeAll s.mem buf).1, (w.writeAll s.mem buf).2.2)
  | .writeFrom i src count =>
    s.withWriter i fun w => ((w.writeFrom s.mem src count).1, (w.writeFrom s.mem src count).2.2)
  | .writeAllFrom i srcs count =>
    s.withWriter i fun w =>
      ((w.writeAllFrom srcs count s.mem).1, (w.writeAllFrom srcs count s.mem).2.2)
  | .splitWriter i offset => s.splitWriter i offset
  | .cloneWriter i => { s with writers := s.writers ++ (s.writers[i]?).toList }

def run (ops : List UseOp) : ChainUse M := ops.foldl step s

/-! ## One operation -/

/-- Readers stay inside `R`, writers inside `W`, and the memory has changed in `W` at most. -/
structure Confined (R W : ℕ → Prop) (m : M) (s : ChainUse M) : Prop where
  readers : ∀ r ∈ s.readers, Inside R r.buffer.buffers
  writers : ∀ w ∈ s.writers, Inside W w.buffer.buffers
  reads : Inside R s.reads
  effect : WriteEffect.Confined W m ⟨s.mem, s.writes⟩

section Step

variable {R W : ℕ → Prop} {m : M} {s : ChainUse M} {A : Type} {P : A → Prop} {l : List A} {a : A}

theorem forall_mem_set (i : ℕ) (hl : ∀ x ∈ l, P x) (ha : P a) : ∀ x ∈ l.set i a, P x := fun x hx =>
  (mem_or_eq_of_mem_set hx).elim (hl x) fun he => he ▸ ha

theorem Confined.withReader (h : Confined R W m s) (i : ℕ)
    {f : Reader → List VolatileSlice × Reader}
    (hf : ∀ r, Inside R r.buffer.buffers → Inside R (f r).1 ∧ Inside R (f r).2.buffer.buffers) :
    Confined R W m (s.withReader i f) := by
  unfold ChainUse.withReader
  cases hr : s.readers[i]? with
  | none => exact h
  | some r =>
    have hout := hf r (h.readers r (mem_of_getElem? hr))
    exact { h with
      readers := forall_mem_set i h.readers hout.2
      reads := h.reads.append hout.1 }

theorem Confined.withWriter (h : Confined R W m s) (i : ℕ) {f : Writer → WriteEffect M × Writer}
    (hf : ∀ w, Inside W w.buffer.buffers →
      (f w).1.Confined W s.mem ∧ Inside W (f w).2.buffer.buffers) :
    Confined R W m (s.withWriter i f) := by
  unfold ChainUse.withWriter
  cases hw : s.writers[i]? with
  | none => exact h
  | some w =>
    have hout := hf w (h.writers w (mem_of_getElem? hw))
    exact { h with
      writers := forall_mem_set i h.writers hout.2
      effect := h.effect.trans hout.1 }

theorem Confined.splitReader (h : Confined R W m s) (i offset : ℕ) :
    Confined R W m (s.splitReader i offset) := by
  unfold ChainUse.splitReader Reader.splitAt
  cases hr : s.readers[i]? with
  | none => exact h
  | some r =>
    rcases hs : r.buffer.splitAt offset with e | c <;> simp only [hs]
    · exact h
    · obtain ⟨h₁, h₂⟩ := DescriptorChainConsumer.splitAt_inside
        (h.readers r (mem_of_getElem? hr)) hs
      exact { h with readers := forall_mem_snoc (forall_mem_set i h.readers h₁) h₂ }

theorem Confined.splitWriter (h : Confined R W m s) (i offset : ℕ) :
    Confined R W m (s.splitWriter i offset) := by
  unfold ChainUse.splitWriter Writer.splitAt
  cases hw : s.writers[i]? with
  | none => exact h
  | some w =>
    rcases hs : w.buffer.splitAt offset with e | c <;> simp only [hs]
    · exact h
    · obtain ⟨h₁, h₂⟩ := DescriptorChainConsumer.splitAt_inside
        (h.writers w (mem_of_getElem? hw)) hs
      exact { h with writers := forall_mem_snoc (forall_mem_set i h.writers h₁) h₂ }

theorem Confined.step [LawfulGuestMemory M] (h : Confined R W m s) (op : UseOp) :
    Confined R W m (s.step op) := by
  cases op with
  | read i n => exact h.withReader i fun r hr => r.read_inside s.mem hr n
  | readObj i n => exact h.withReader i fun r hr => Reader.readExactLoop_inside s.mem n n hr
  | readTo i dst count => exact h.withReader i fun r hr => r.readTo_inside hr dst count
  | readExactTo i dsts count =>
    exact h.withReader i fun r hr => Reader.readExactTo_inside dsts count hr
  | splitReader i offset => exact h.splitReader i offset
  | cloneReader i =>
    refine { h with readers := forall_mem_append.mpr ⟨h.readers, fun r hr => ?_⟩ }
    exact h.readers r (mem_of_getElem? (Option.mem_toList.mp hr))
  | write i buf => exact h.withWriter i fun w hw => w.write_confined s.mem hw buf
  | writeAll i buf =>
    exact h.withWriter i fun w hw => Writer.writeAllLoop_confined buf.length s.mem buf hw
  | writeFrom i src count =>
    exact h.withWriter i fun w hw => w.writeFrom_confined s.mem hw src count
  | writeAllFrom i srcs count =>
    exact h.withWriter i fun w hw => Writer.writeAllFrom_confined srcs count s.mem hw
  | splitWriter i offset => exact h.splitWriter i offset
  | cloneWriter i =>
    refine { h with writers := forall_mem_append.mpr ⟨h.writers, fun w hw => ?_⟩ }
    exact h.writers w (mem_of_getElem? (Option.mem_toList.mp hw))

theorem Confined.run [LawfulGuestMemory M] (h : Confined R W m s) (ops : List UseOp) :
    Confined R W m (s.run ops) := by
  induction ops generalizing s with
  | nil => exact h
  | cons op ops ih => exact ih (h.step op)

end Step

/-! ## Every sequence of operations -/

def BytesOf (descs : List DescriptorChain) (x : ℕ) : Prop :=
  ∃ d ∈ descs, Range d.addr.toNat d.len.toNat x

variable {m : M} {chain : DescriptorChain}

theorem inside_chainBuffers {descs : List DescriptorChain} {totalLen : ℕ}
    {buffers : List VolatileSlice} (h : chainBuffers m totalLen descs = .ok buffers) :
    Inside (BytesOf descs) buffers := by
  induction descs generalizing totalLen buffers with
  | nil =>
    cases h
    exact inside_nil
  | cons desc rest ih =>
    unfold chainBuffers at h
    split_ifs at h
    split at h
    · cases h
    split_ifs at h
    split at h <;> cases h
    next hb =>
      refine Inside.cons.mpr ⟨fun x hx => ⟨desc, .head _, hx⟩, fun vs hvs x hx => ?_⟩
      obtain ⟨d, hd, hdx⟩ := ih hb vs hvs x hx
      exact ⟨d, .tail _ hd, hdx⟩

theorem inside_reader {r : Reader} (h : Reader.new m chain = .ok r) :
    Inside (BytesOf (chain.intoIter.readable m)) r.buffer.buffers := by
  unfold Reader.new at h
  split at h <;> cases h
  next hb => exact inside_chainBuffers hb

theorem inside_writer {w : Writer} (h : Writer.new m chain = .ok w) :
    Inside (BytesOf (chain.intoIter.writable m)) w.buffer.buffers := by
  unfold Writer.new at h
  split at h <;> cases h
  next hb => exact inside_chainBuffers hb

theorem readable_isReadOnly {d : DescriptorChain} (h : d ∈ chain.intoIter.readable m) :
    d ∈ chain.intoIter.collect m ∧ d.isWriteOnly = false := by
  have hro : d.isReadOnly = true := mem_takeWhile_imp h
  refine ⟨takeWhile_subset _ h, ?_⟩
  unfold DescriptorChain.isReadOnly at hro
  unfold DescriptorChain.isWriteOnly
  rw [bne, hro]
  rfl

/-- **Accesses to a chain.** For every chain and every sequence of operations on readers and writers
made from it, their splits and their clones: every byte read belongs to a descriptor without the
`WRITE` flag, every byte written to a descriptor at or after the first one with the flag, and all
other memory is as it was. -/
theorem chain_accesses_confined [LawfulGuestMemory M] {m : M} {chain : DescriptorChain}
    {readers : List Reader} {writers : List Writer}
    (hr : ∀ r ∈ readers, Reader.new m chain = .ok r)
    (hw : ∀ w ∈ writers, Writer.new m chain = .ok w) (ops : List UseOp) :
    (∀ vs ∈ ((start m readers writers).run ops).reads, ∀ x, Range vs.addr vs.len x →
      ∃ d ∈ chain.intoIter.collect m,
        d.isWriteOnly = false ∧ Range d.addr.toNat d.len.toNat x) ∧
    (∀ vs ∈ ((start m readers writers).run ops).writes, ∀ x, Range vs.addr vs.len x →
      BytesOf (chain.intoIter.writable m) x) ∧
    SameOutside (BytesOf (chain.intoIter.writable m)) m
      ((start m readers writers).run ops).mem := by
  have h0 : Confined (BytesOf (chain.intoIter.readable m)) (BytesOf (chain.intoIter.writable m)) m
      (start m readers writers) :=
    ⟨fun r h => inside_reader (hr r h), fun w h => inside_writer (hw w h), inside_nil, .refl m⟩
  have h := h0.run ops
  refine ⟨fun vs hvs x hx => ?_, h.effect.ranges, h.effect.outside⟩
  obtain ⟨d, hd, hdx⟩ := h.reads vs hvs x hx
  obtain ⟨hmem, hflag⟩ := readable_isReadOnly hd
  exact ⟨d, hmem, hflag, hdx⟩

/-- A chain of two descriptors with two bytes each, at 0x40 and 0x50, and these flags. -/
def twoDescriptors (flags₀ flags₁ : U16) : FlatMemory :=
  ((FlatMemory.zeroed [⟨0, 0x60⟩] (by decide)).put 0
    (Descriptor.toBytes ⟨0x40, 2, flags₀, 1⟩)).put 16 (Descriptor.toBytes ⟨0x50, 2, flags₁, 0⟩)

/-- The head of `twoDescriptors`. -/
def twoDescriptorsHead (flags : U16) : DescriptorChain := ⟨0, 2, 2, 0, 0x40, 2, flags, 1⟩

/-- A readable descriptor and then a writable one, and a writer with more bytes than fit: it stays
in the second. -/
theorem chain_accesses_confined_ordered :
    Reader.new (twoDescriptors 1 2) (twoDescriptorsHead 1) = .ok ⟨⟨[⟨0x40, 2⟩], 0⟩⟩ ∧
      Writer.new (twoDescriptors 1 2) (twoDescriptorsHead 1) = .ok ⟨⟨[⟨0x50, 2⟩], 0⟩⟩ ∧
      ∃ s, s = (start (twoDescriptors 1 2) [⟨⟨[⟨0x40, 2⟩], 0⟩⟩] [⟨⟨[⟨0x50, 2⟩], 0⟩⟩]).run
          [.read 0 8, .writeAll 0 [1, 2, 3]] ∧
        s.reads = [⟨0x40, 2⟩] ∧ s.writes = [⟨0x50, 2⟩] ∧ byte s.mem 0x51 = 2 ∧
        SameOutside (BytesOf ((twoDescriptorsHead 1).intoIter.writable (twoDescriptors 1 2)))
          (twoDescriptors 1 2) s.mem := by
  have hr : Reader.new (twoDescriptors 1 2) (twoDescriptorsHead 1) = .ok ⟨⟨[⟨0x40, 2⟩], 0⟩⟩ := by
    decide +kernel
  have hw : Writer.new (twoDescriptors 1 2) (twoDescriptorsHead 1) = .ok ⟨⟨[⟨0x50, 2⟩], 0⟩⟩ := by
    decide +kernel
  refine ⟨hr, hw, _, rfl, by decide +kernel, by decide +kernel, by decide +kernel, ?_⟩
  exact (chain_accesses_confined (forall_mem_singleton.mpr hr)
    (forall_mem_singleton.mpr hw) _).2.2

/-- A writable descriptor and then a readable one: the writer goes on into the second, which does
not carry the flag. -/
theorem writer_writes_readable :
    DescriptorChain.checkedNew (twoDescriptors 3 0) 0 2 0 = some (twoDescriptorsHead 3) ∧
      Writer.new (twoDescriptors 3 0) (twoDescriptorsHead 3) = .ok ⟨⟨[⟨0x40, 2⟩, ⟨0x50, 2⟩], 0⟩⟩ ∧
      (∀ d ∈ (twoDescriptorsHead 3).intoIter.collect (twoDescriptors 3 0),
        d.addr.toNat ≤ 0x50 ∧ 0x50 < d.addr.toNat + d.len.toNat → d.isWriteOnly = false) ∧
      byte (twoDescriptors 3 0) 0x50 = 0 ∧
      byte ((start (twoDescriptors 3 0) [] [⟨⟨[⟨0x40, 2⟩, ⟨0x50, 2⟩], 0⟩⟩]).run
        [.write 0 [1, 2, 3, 4]]).mem 0x50 = 3 :=
  ⟨by decide +kernel, by decide +kernel, by decide +kernel, by decide +kernel, by decide +kernel⟩

end ChainUse

end Shelter.Virtio
