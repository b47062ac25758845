import Shelter.Lib.Stores
import Shelter.Virtio.DescriptorUtils

/-!
# Readers and writers as sequences of addresses

To the party that reads a reply, the buffers of a chain are one sequence of bytes. A list of slices
stands for the sequence of its addresses (`addrsOf`); what a reader or a writer does is said on that
sequence, where the descriptors do not show any more.

1. `consume` passes on a beginning of the sequence and drops a beginning of it.
2. A reader delivers the content of its next addresses (`Reader.readObj_ok`).
3. A writer stores at its next addresses in order (`Writer.writeAll_filled`); if no address occurs
   twice, all of it is there afterwards (`Writer.writeAll_ok`).
4. `splitAt` cuts the sequence in two if it cuts between two slices (`splitAt_boundary`), and
   otherwise leaves the end of the cut slice in both parts (`splitAt_inside_slice`).
-/

open Bytes Stores

namespace Shelter.Virtio

open VolatileSlice LawfulGuestMemory List Nat

variable {M : Type} [GuestMemory M]

def VolatileSlice.addrs (vs : VolatileSlice) : List ℕ := List.range' vs.addr vs.len

@[simp] theorem VolatileSlice.length_addrs (vs : VolatileSlice) : vs.addrs.length = vs.len :=
  length_range'

variable {vs : VolatileSlice} {n : ℕ}

theorem VolatileSlice.mem_addrs {x : ℕ} : x ∈ vs.addrs ↔ Range vs.addr vs.len x := by
  simp [addrs, Range, mem_range'_1]

theorem VolatileSlice.take_addrs (vs : VolatileSlice) (n : ℕ) :
    vs.addrs.take n = List.range' vs.addr (min n vs.len) :=
  ext_getElem (by simp [addrs]) (by simp [addrs])

theorem VolatileSlice.addrs_offset {vs' : VolatileSlice} (h : vs.offset n = some vs') :
    vs'.addrs = vs.addrs.drop n := by
  unfold offset at h
  split_ifs at h with hle
  cases h
  simp [addrs, drop_range']

def addrsOf (bufs : List VolatileSlice) : List ℕ := bufs.flatMap addrs

@[simp] theorem addrsOf_nil : addrsOf [] = [] := rfl

@[simp] theorem addrsOf_cons (vs : VolatileSlice) (l : List VolatileSlice) :
    addrsOf (vs :: l) = vs.addrs ++ addrsOf l := flatMap_cons

@[simp] theorem addrsOf_append (l l' : List VolatileSlice) :
    addrsOf (l ++ l') = addrsOf l ++ addrsOf l' := flatMap_append

variable (l : List VolatileSlice)

theorem length_addrsOf : (addrsOf l).length = (l.map (·.len)).sum := by
  induction l with
  | nil => rfl
  | cons vs l ih => rw [addrsOf_cons, length_append, vs.length_addrs, ih]; rfl

def contents (m : M) (as : List ℕ) : List Byte := as.map (byte m)

@[simp] theorem length_contents (m : M) (as : List ℕ) : (contents m as).length = as.length :=
  length_map _

theorem contents_range' (m : M) (a n : ℕ) : contents m (List.range' a n) = bytesAt m a n := by
  unfold contents bytesAt
  rw [range'_eq_map_range, map_map]
  rfl

/-! ## Consuming -/

namespace DescriptorChainConsumer

variable (c : DescriptorChainConsumer)

theorem availableBytes_eq : c.availableBytes = (addrsOf c.buffers).length := by
  have hfold : ∀ (l : List VolatileSlice) (n : ℕ),
      l.foldl (fun count vs => count + vs.len) n = n + (addrsOf l).length := by
    intro l
    induction l with
    | nil => simp
    | cons vs l ih =>
      intro n
      rw [foldl_cons, ih, addrsOf_cons, length_append, vs.length_addrs]
      omega
  unfold availableBytes
  rw [hfold, zero_add]

/-- The slices that are passed on begin the sequence, and reach as far as was asked for. -/
theorem takeBuffers_spec (count buflen : ℕ) (l : List VolatileSlice) :
    addrsOf (takeBuffers count buflen l) <+: addrsOf l ∧
      min (count - buflen) (addrsOf l).length ≤ (addrsOf (takeBuffers count buflen l)).length := by
  induction l generalizing buflen with
  | nil => simp [takeBuffers]
  | cons vs rest ih =>
    unfold takeBuffers
    split_ifs with hle
    · simp only [addrsOf_nil, nil_prefix, true_and, length_nil]
      omega
    · obtain ⟨hpre, hlen⟩ :=
        ih (buflen + if count - buflen < vs.len then count - buflen else vs.len)
      refine ⟨by simpa using hpre, ?_⟩
      simp only [addrsOf_cons, length_append, vs.length_addrs]
      split_ifs at hlen ⊢ <;> omega

theorem takeBuffers_eq_nil {count : ℕ} {l : List VolatileSlice} (h : takeBuffers count 0 l = []) :
    min count (addrsOf l).length = 0 := by
  have := (takeBuffers_spec count 0 l).2
  rw [h] at this
  simpa using this

theorem addrsOf_dropBytes (rem : ℕ) (l : List VolatileSlice) :
    addrsOf (dropBytes rem l) = (addrsOf l).drop rem := by
  induction l generalizing rem with
  | nil => simp [dropBytes]
  | cons vs rest ih =>
    unfold dropBytes
    split_ifs with hlt
    · have ho : vs.offset rem = some ⟨vs.addr + rem, vs.len - rem⟩ := if_pos hlt.le
      rw [ho, Option.toList_some, singleton_append, addrsOf_cons, addrsOf_cons,
        addrs_offset ho, drop_append_of_le_length (by simpa using hlt.le)]
    · have hall : vs.addrs.drop rem = [] := drop_eq_nil_of_le (by simpa using hlt)
      rw [ih, addrsOf_cons, drop_append, vs.length_addrs, hall, nil_append]

/-- All bytes are counted in a `usize`. -/
def Counted : Prop :=
  c.bytesConsumed + (addrsOf c.buffers).length < 2 ^ 64
  deriving Decidable

theorem Counted.dropBytes {c : DescriptorChainConsumer} (hc : c.Counted) {n : ℕ}
    (hn : n ≤ (addrsOf c.buffers).length) :
    Counted ⟨DescriptorChainConsumer.dropBytes n c.buffers, c.bytesConsumed + n⟩ := by
  unfold Counted at hc ⊢
  simp only [addrsOf_dropBytes, length_drop]
  omega

/-- `consume` with an `f` that takes no more than it is given: `f` sees a beginning of the
sequence, and what it took is gone. -/
theorem consume_spec {A : Type} {c : DescriptorChainConsumer} (hc : c.Counted) (count : ℕ)
    (idle : A) (f : List VolatileSlice → A × Except IoError ℕ)
    (hf : ∀ bufs n, (f bufs).2 = .ok n → n ≤ (addrsOf bufs).length) :
    (takeBuffers count 0 c.buffers = [] ∧ c.consume count idle f = (idle, .ok 0, c)) ∨
    ∃ bufs, bufs = takeBuffers count 0 c.buffers ∧ bufs ≠ [] ∧
      ((∃ e, (f bufs).2 = .error e ∧ c.consume count idle f = ((f bufs).1, .error e, c)) ∨
        ∃ n, (f bufs).2 = .ok n ∧ c.consume count idle f =
          ((f bufs).1, .ok n, ⟨dropBytes n c.buffers, c.bytesConsumed + n⟩)) := by
  by_cases hnil : takeBuffers count 0 c.buffers = []
  · left
    simp [consume, hnil]
  · refine .inr ⟨_, rfl, hnil, ?_⟩
    have hfit := hf (takeBuffers count 0 c.buffers)
    have hpre := (takeBuffers_spec count 0 c.buffers).1.length_le
    have hemp : (takeBuffers count 0 c.buffers).isEmpty = false := by simpa using hnil
    unfold consume
    rcases hr : f (takeBuffers count 0 c.buffers) with ⟨effect, e | n⟩
    · exact .inl ⟨e, rfl, by simp [hemp, hr]⟩
    · have hn : n ≤ _ := hfit n (by rw [hr])
      have hlt : c.bytesConsumed + n < 2 ^ 64 := by
        unfold Counted at hc
        omega
      exact .inr ⟨n, rfl, by simp only [hemp, hr, if_pos hlt]; rfl⟩

end DescriptorChainConsumer

open DescriptorChainConsumer

theorem take_takeBuffers {count : ℕ} (h : n ≤ count) (l : List VolatileSlice) :
    (addrsOf (takeBuffers count 0 l)).take n = (addrsOf l).take n := by
  obtain ⟨⟨rest, hrest⟩, hlen⟩ := takeBuffers_spec count 0 l
  rw [← hrest, length_append] at hlen
  rw [← hrest, take_append]
  rcases lt_or_ge (addrsOf (takeBuffers count 0 l)).length n with hlt | hge
  · have : rest = [] := length_eq_zero_iff.mp (by omega)
    simp [this]
  · simp [Nat.sub_eq_zero_of_le hge]

/-! ## The reader -/

theorem copyOut_data (m : M) (rem : ℕ) (bufs : List VolatileSlice) :
    (copyOut m rem bufs).data = contents m ((addrsOf bufs).take rem) := by
  induction bufs generalizing rem with
  | nil => simp [copyOut, contents]
  | cons vs rest ih =>
    have hhead : contents m (vs.addrs.take rem) = bytesAt m vs.addr (min rem vs.len) := by
      rw [vs.take_addrs, contents_range']
    have htail : rem - min rem vs.len = rem - vs.len := by omega
    unfold copyOut
    simp only
    rw [ih, ← hhead, addrsOf_cons, take_append, vs.length_addrs, htail]
    simp [contents]

namespace Reader

def addrs (r : Reader) : List ℕ := addrsOf r.buffer.buffers

theorem availableBytes_eq (r : Reader) : r.availableBytes = r.addrs.length :=
  r.buffer.availableBytes_eq

/-- What is left of the reader when `n` bytes are read. -/
structure After (r : Reader) (n : ℕ) (r' : Reader) : Prop where
  addrs : r'.addrs = r.addrs.drop n
  read : r'.bytesRead = r.bytesRead + n
  counted : r'.buffer.Counted

variable {r : Reader}

theorem after_zero (hr : r.buffer.Counted) : r.After 0 r := ⟨rfl, rfl, hr⟩

theorem After.trans {r' r'' : Reader} {k : ℕ} (h : r.After n r') (h' : r'.After k r'') :
    r.After (n + k) r'' where
  addrs := by rw [h'.addrs, h.addrs, drop_drop]
  read := by rw [h'.read, h.read, add_assoc]
  counted := h'.counted

theorem read_spec (hr : r.buffer.Counted) (m : M) (n : ℕ) :
    ∃ ranges r', r.read m n =
        (⟨contents m (r.addrs.take n), ranges⟩, .ok (min n r.addrs.length), r') ∧
      r.After (min n r.addrs.length) r' := by
  have hdata : ∀ bufs, (copyOut m n bufs).data = contents m ((addrsOf bufs).take n) :=
    copyOut_data m n
  have hspec := consume_spec hr n (⟨[], []⟩ : ReadEffect)
    (fun bufs => (copyOut m n bufs, .ok (copyOut m n bufs).data.length)) (by
      rintro bufs k ⟨⟩
      rw [hdata, length_contents, length_take]
      omega)
  rcases hspec with ⟨hnil, hout⟩ | ⟨bufs, rfl, -, ⟨e, he, -⟩ | ⟨k, hk, hout⟩⟩
  · have hmin : min n r.addrs.length = 0 := takeBuffers_eq_nil hnil
    have htake : r.addrs.take n = [] := by
      rw [← length_eq_zero_iff, length_take, hmin]
    refine ⟨[], r, ?_, hmin ▸ after_zero hr⟩
    unfold read
    simp [hout, hmin, htake, contents]
  · cases he
  · cases hk
    have hread : (copyOut m n (takeBuffers n 0 r.buffer.buffers)).data =
        contents m (r.addrs.take n) := by
      rw [hdata, take_takeBuffers (le_refl n)]; rfl
    have hcount : (copyOut m n (takeBuffers n 0 r.buffer.buffers)).data.length =
        min n r.addrs.length := by rw [hread, length_contents, length_take]
    rw [hcount] at hout
    refine ⟨(copyOut m n (takeBuffers n 0 r.buffer.buffers)).ranges,
      ⟨⟨dropBytes (min n r.addrs.length) r.buffer.buffers, _⟩⟩, ?_,
      addrsOf_dropBytes _ _, rfl, hr.dropBytes (min_le_right ..)⟩
    unfold read
    rw [hout, ← hread]
    rfl

theorem readObj_ok (hr : r.buffer.Counted) (m : M) (h : n ≤ r.addrs.length) :
    ∃ ranges r', r.readObj m n = (⟨contents m (r.addrs.take n), ranges⟩, .ok (), r') ∧
      r.After n r' := by
  cases n with
  | zero => exact ⟨[], r, by simp [readObj, readExactLoop, contents], after_zero hr⟩
  | succ n =>
    obtain ⟨ranges, r', hread, hafter⟩ := read_spec hr m (n + 1)
    rw [min_eq_left h] at hread hafter
    refine ⟨ranges, r', ?_, hafter⟩
    unfold readObj readExactLoop
    simp [hread, readExactLoop]

theorem readObj_short (hr : r.buffer.Counted) (m : M) (h : r.addrs.length < n) :
    (r.readObj m n).2.1 = .error .unexpectedEof := by
  obtain ⟨n, rfl⟩ := exists_eq_add_one_of_ne_zero (show n ≠ 0 by omega)
  obtain ⟨ranges, r', hread, hafter⟩ := read_spec hr m (n + 1)
  rw [min_eq_right h.le] at hread hafter
  unfold readObj readExactLoop
  rw [hread]
  rcases hlen : r.addrs.length with _ | k
  · rfl
  · -- the second turn finds nothing left
    obtain ⟨ranges', r'', hread', -⟩ := read_spec hafter.counted m (n + 1 - (k + 1))
    have hnone : r'.addrs = [] := by rw [hafter.addrs, drop_length]
    obtain ⟨j, hj⟩ := exists_eq_add_one_of_ne_zero (show n + 1 - (k + 1) ≠ 0 by omega)
    obtain ⟨t, rfl⟩ := exists_eq_add_one_of_ne_zero (show n ≠ 0 by omega)
    simp only [hnone, take_nil, length_nil, min_zero, hj] at hread'
    simp only [hj, readExactLoop, hread']

end Reader

/-! ## The writer -/

/-- `m'` is `m` with `bs` at these addresses. -/
structure Stored (as : List ℕ) (bs : List Byte) (m m' : M) : Prop where
  layout : SameLayout m m'
  bytes : contents m' as = bs
  frame : ∀ x ∉ as, byte m' x = byte m x

namespace Stored

variable {as as' : List ℕ} {bs bs' : List Byte} {m m₁ m₂ : M}

theorem refl (m : M) : Stored [] [] m m := ⟨.refl m, rfl, fun _ _ => rfl⟩

theorem length_eq (h : Stored as bs m m₁) : bs.length = as.length := by
  rw [← h.bytes, length_contents]

theorem bytes_left {k : ℕ} (h : Stored (as.take (n + k)) (bs ++ bs') m m₁) (hb : bs.length = n) :
    contents m₁ (as.take n) = bs := by
  have hbytes := congrArg (List.take n) h.bytes
  rwa [take_left' hb, contents, ← map_take, take_take,
    min_eq_left (le_add_right _ _)] at hbytes

section Both

variable (h : Stored as bs m m₁) (h' : Stored as' bs' m₁ m₂) (hd : as.Disjoint as')
include h h' hd

theorem kept : contents m₂ as = bs := by
  rw [← h.bytes]
  exact map_congr_left fun x hx => h'.frame x fun hx' => hd hx hx'

theorem append : Stored (as ++ as') (bs ++ bs') m m₂ where
  layout := h.layout.trans h'.layout
  bytes := by rw [contents, map_append, ← contents, ← contents, h.kept h' hd, h'.bytes]
  frame x hx := by
    rw [mem_append, not_or] at hx
    rw [h'.frame x hx.2, h.frame x hx.1]

theorem prepend : Stored (as' ++ as) (bs' ++ bs) m m₂ where
  layout := h.layout.trans h'.layout
  bytes := by rw [contents, map_append, ← contents, ← contents, h.kept h' hd, h'.bytes]
  frame x hx := by
    rw [mem_append, not_or] at hx
    rw [h'.frame x hx.1, h.frame x hx.2]

end Both

end Stored

/-- `m'` is `m` after stores of `bs` at these addresses, in order. Unlike `Stored`, this does not
say that all of `bs` is there in the end: an address may occur twice. -/
structure Filled (as : List ℕ) (bs : List Byte) (m m' : M) : Prop where
  layout : SameLayout m m'
  length_eq : bs.length = as.length
  bytes : byte m' = storeAll (byte m) as bs

namespace Filled

variable {as as' : List ℕ} {bs bs' : List Byte} {m m₁ m₂ : M}

theorem refl (m : M) : Filled [] [] m m := ⟨.refl m, rfl, rfl⟩

theorem append (h : Filled as bs m m₁) (h' : Filled as' bs' m₁ m₂) :
    Filled (as ++ as') (bs ++ bs') m m₂ where
  layout := h.layout.trans h'.layout
  length_eq := by rw [length_append, length_append, h.length_eq, h'.length_eq]
  bytes := by rw [h'.bytes, h.bytes, storeAll_append h.length_eq]

theorem stored (h : Filled as bs m m₁) (hnodup : as.Nodup) : Stored as bs m m₁ where
  layout := h.layout
  bytes := by
    unfold contents
    rw [h.bytes]
    exact map_storeAll h.length_eq hnodup _
  frame x hx := by rw [h.bytes, storeAll_of_notMem hx]

end Filled

theorem Stored.filled {as : List ℕ} {bs : List Byte} {m m' : M} (h : Stored as bs m m')
    (hnodup : as.Nodup) : Filled as bs m m' where
  layout := h.layout
  length_eq := h.length_eq
  bytes := eq_storeAll hnodup h.bytes h.frame

section Writing

variable {m : M}

theorem stored_writeSlice [LawfulGuestMemory M] {a : ℕ} {bs : List Byte}
    (h : Mapped m a bs.length) : Stored (List.range' a bs.length) bs m (writeSlice m a bs).1 where
  layout := writeSlice_find m a bs
  bytes := by
    rw [contents_range']
    refine ext_getElem (length_bytesAt _ _ _) fun i hi hi' => ?_
    simp only [bytesAt, getElem_map, getElem_range]
    exact writeSlice_byte h hi'
  frame x hx := by
    rw [mem_range'_1] at hx
    exact writeSlice_frame (by omega)

theorem copyIn_filled [LawfulGuestMemory M] (rem : List Byte) {bufs : List VolatileSlice}
    (hmapped : ∀ x ∈ addrsOf bufs, addressInRange m x = true) :
    Filled ((addrsOf bufs).take rem.length) (rem.take (addrsOf bufs).length) m
        (copyIn rem m bufs).1.mem ∧
      (copyIn rem m bufs).2 = min rem.length (addrsOf bufs).length := by
  induction bufs generalizing rem m with
  | nil => simpa [copyIn] using Filled.refl m
  | cons vs rest ih =>
    have hlen : (rem.take (min rem.length vs.len)).length = min rem.length vs.len := by simp
    have hhead : Filled (vs.addrs.take rem.length) (rem.take vs.len) m
        (writeSlice m vs.addr (rem.take (min rem.length vs.len))).1 := by
      have hvalid : Mapped m vs.addr (rem.take (min rem.length vs.len)).length := by
        intro i hi
        refine hmapped _ (mem_append_left _ (mem_addrs.mpr ⟨by omega, ?_⟩))
        omega
      have hw := (stored_writeSlice hvalid).filled nodup_range'
      have hbs : rem.take (min rem.length vs.len) = rem.take vs.len := by
        rw [min_comm, ← take_take, take_length]
      rw [hlen, ← vs.take_addrs, hbs] at hw
      rwa [hbs]
    obtain ⟨htail, hcount⟩ := ih (rem.drop (min rem.length vs.len)) fun x hx => by
      rw [hhead.layout.addressInRange_eq]
      exact hmapped x (mem_append_right _ hx)
    have hall := hhead.append htail
    unfold copyIn
    simp only [addrsOf_cons, length_append, vs.length_addrs]
    refine ⟨?_, ?_⟩
    · convert hall using 1
      · rw [take_append, vs.length_addrs, length_drop]
        congr 2
        omega
      · rw [take_add]
        rcases le_total rem.length vs.len with hle | hle
        · simp [min_eq_left hle, drop_eq_nil_of_le hle]
        · rw [min_eq_right hle]
    · rw [hcount, length_drop]
      omega

theorem copyIn_le (rem : List Byte) (m : M) (bufs : List VolatileSlice) :
    (copyIn rem m bufs).2 ≤ (addrsOf bufs).length := by
  induction bufs generalizing rem m with
  | nil => exact zero_le _
  | cons vs rest ih =>
    have hrest := ih (rem.drop (min rem.length vs.len))
      (writeSlice m vs.addr (rem.take (min rem.length vs.len))).1
    unfold copyIn
    simp only [addrsOf_cons, length_append, vs.length_addrs]
    omega

namespace Writer

def addrs (w : Writer) : List ℕ := addrsOf w.buffer.buffers

theorem availableBytes_eq (w : Writer) : w.availableBytes = w.addrs.length :=
  w.buffer.availableBytes_eq

structure Usable (w : Writer) (m : M) : Prop where
  counted : w.buffer.Counted
  mapped : ∀ x ∈ w.addrs, addressInRange m x = true

/-- The buffers of the writer do not overlap and are mapped. -/
structure Ready (w : Writer) (m : M) : Prop where
  counted : w.buffer.Counted
  nodup : w.addrs.Nodup
  mapped : ∀ x ∈ w.addrs, addressInRange m x = true

variable {w w' : Writer} {buf : List Byte}

theorem Ready.usable (h : w.Ready m) : w.Usable m := ⟨h.counted, h.mapped⟩

/-- What is left of the writer when `n` bytes are written. -/
structure After (w : Writer) (n : ℕ) (w' : Writer) : Prop where
  addrs : w'.addrs = w.addrs.drop n
  written : w'.bytesWritten = w.bytesWritten + n
  counted : w'.buffer.Counted

theorem After.trans {w'' : Writer} {k : ℕ} (h : w.After n w') (h' : w'.After k w'') :
    w.After (n + k) w'' where
  addrs := by rw [h'.addrs, h.addrs, drop_drop]
  written := by rw [h'.written, h.written, add_assoc]
  counted := h'.counted

theorem After.usable {m' : M} (h : w.After n w') (hw : w.Usable m) (hm : SameLayout m m') :
    w'.Usable m' where
  counted := h.counted
  mapped x hx := by
    rw [hm.addressInRange_eq]
    exact hw.mapped x (mem_of_mem_drop (h.addrs ▸ hx))

theorem After.ready {m' : M} (h : w.After n w') (hw : w.Ready m) (hm : SameLayout m m') :
    w'.Ready m' where
  counted := h.counted
  nodup := h.addrs ▸ hw.nodup.sublist (drop_sublist _ _)
  mapped := (h.usable hw.usable hm).mapped

theorem after_zero (hw : w.buffer.Counted) : w.After 0 w := ⟨rfl, rfl, hw⟩

theorem after_dropBytes (hw : w.buffer.Counted) (hn : n ≤ w.addrs.length) :
    w.After n ⟨⟨dropBytes n w.buffer.buffers, w.buffer.bytesConsumed + n⟩⟩ where
  addrs := addrsOf_dropBytes n w.buffer.buffers
  written := rfl
  counted := hw.dropBytes hn

variable [LawfulGuestMemory M]

theorem copyIn_takeBuffers (hw : w.Usable m) (count : ℕ) (bs : List Byte)
    (hle : bs.length ≤ (addrsOf (takeBuffers count 0 w.buffer.buffers)).length) :
    Filled (w.addrs.take bs.length) bs m
        (copyIn bs m (takeBuffers count 0 w.buffer.buffers)).1.mem ∧
      (copyIn bs m (takeBuffers count 0 w.buffer.buffers)).2 = bs.length := by
  obtain ⟨hpre, -⟩ := takeBuffers_spec count 0 w.buffer.buffers
  obtain ⟨hfilled, hcount⟩ := copyIn_filled bs (m := m) fun x hx => hw.mapped x (hpre.subset hx)
  have htake : (addrsOf (takeBuffers count 0 w.buffer.buffers)).take bs.length =
      w.addrs.take bs.length := by
    rw [prefix_iff_eq_take.mp hpre, take_take, min_eq_left hle]
    rfl
  rw [htake, take_of_length_le hle] at hfilled
  exact ⟨hfilled, hcount.trans (min_eq_left hle)⟩

theorem write_filled (hw : w.Usable m) (buf : List Byte) :
    ∃ e w', w.write m buf = (e, .ok (min buf.length w.addrs.length), w') ∧
      Filled (w.addrs.take buf.length) (buf.take w.addrs.length) m e.mem ∧
      w.After (min buf.length w.addrs.length) w' := by
  -- `write` asks for all of `buf`; the slices passed on hold it up to the end of the sequence
  set bufs := takeBuffers buf.length 0 w.buffer.buffers with hbufs
  obtain ⟨hpre, hlong⟩ := takeBuffers_spec buf.length 0 w.buffer.buffers
  rw [Nat.sub_zero, ← hbufs] at hlong
  have hsub : (addrsOf bufs).Sublist w.addrs := hpre.sublist
  have hlen : (addrsOf w.buffer.buffers).length = w.addrs.length := rfl
  obtain ⟨hfilled, hcount⟩ := copyIn_filled buf (m := m) fun x hx => hw.mapped x (hsub.subset hx)
  have htake : (addrsOf bufs).take buf.length = w.addrs.take buf.length :=
    take_takeBuffers le_rfl _
  have hmin : min buf.length (addrsOf bufs).length = min buf.length w.addrs.length := by
    have := hsub.length_le
    omega
  have hbytes : buf.take (addrsOf bufs).length = buf.take w.addrs.length :=
    take_eq_take_iff.mpr (by omega)
  rw [htake, hbytes] at hfilled
  rw [hmin] at hcount
  have hspec := consume_spec hw.counted buf.length (⟨m, []⟩ : WriteEffect M)
    (fun bufs => ((copyIn buf m bufs).1, .ok (copyIn buf m bufs).2)) (by
      rintro l k ⟨⟩
      exact copyIn_le buf m l)
  unfold write
  rcases hspec with ⟨hnil, hout⟩ | ⟨l, rfl, -, ⟨e, he, -⟩ | ⟨k, hk, hout⟩⟩
  · have hzero : min buf.length w.addrs.length = 0 := takeBuffers_eq_nil hnil
    rw [← hbufs] at hnil
    rw [hnil] at hfilled
    refine ⟨⟨m, []⟩, w, by rw [hout, hzero], hfilled, hzero ▸ after_zero hw.counted⟩
  · cases he
  · cases hk
    rw [hcount] at hout
    exact ⟨(copyIn buf m bufs).1, _, by rw [hout], hfilled,
      after_dropBytes hw.counted (min_le_right _ _)⟩

theorem writeAll_filled (hw : w.Usable m) (h : buf.length ≤ w.addrs.length) :
    ∃ e w', w.writeAll m buf = (e, .ok (), w') ∧ Filled (w.addrs.take buf.length) buf m e.mem ∧
      w.After buf.length w' := by
  cases buf with
  | nil => exact ⟨⟨m, []⟩, w, rfl, .refl m, after_zero hw.counted⟩
  | cons b bs =>
    obtain ⟨e, w', hwrite, hfilled, hafter⟩ := write_filled hw (b :: bs)
    rw [min_eq_left h] at hwrite hafter
    rw [take_of_length_le h] at hfilled
    refine ⟨⟨e.mem, e.ranges ++ []⟩, w', ?_, hfilled, hafter⟩
    unfold writeAll writeAllLoop
    simp [hwrite, writeAllLoop]

theorem writeAll_full (hw : w.Usable m) (h : w.addrs.length < buf.length) :
    ∃ e w', w.writeAll m buf = (e, .error .writeZero, w') ∧
      Filled w.addrs (buf.take w.addrs.length) m e.mem := by
  cases buf with
  | nil => exact absurd h (not_lt_zero _)
  | cons b bs =>
    obtain ⟨e, w', hwrite, hfilled, hafter⟩ := write_filled hw (b :: bs)
    rw [min_eq_right h.le] at hwrite hafter
    rw [take_of_length_le h.le] at hfilled
    unfold writeAll
    rw [length_cons, writeAllLoop, hwrite]
    rcases hlen : w.addrs.length with _ | k
    · exact ⟨e, w', rfl, hlen ▸ hfilled⟩
    · -- the second turn finds no room
      have hnone : w'.addrs = [] := by rw [hafter.addrs, drop_length]
      have hleft : (b :: bs).drop (k + 1) ≠ [] := by
        rw [← length_pos_iff, length_drop]
        omega
      obtain ⟨c, cs, hcs⟩ := exists_cons_of_ne_nil hleft
      obtain ⟨e', w'', hwrite', hfilled', -⟩ :=
        write_filled (hafter.usable hw hfilled.layout) (c :: cs)
      obtain ⟨t, ht⟩ : ∃ t, bs.length = t + 1 :=
        exists_eq_add_one_of_ne_zero (by rw [length_cons] at h; omega)
      simp only [hnone, length_nil, min_zero, take_nil, take_zero]
        at hwrite' hfilled'
      refine ⟨⟨e'.mem, e.ranges ++ e'.ranges⟩, w'', ?_, ?_⟩
      · simp only [ht, hcs, writeAllLoop, hwrite']
      · rw [← hlen]
        simpa using hfilled.append hfilled'

/-- There are no slices, or `write_from` takes what the file answers for them: its bytes are in
memory as `Moved` says. -/
def WritesFrom (Moved : List ℕ → List Byte → M → M → Prop) (w : Writer) (m : M) (src : Source)
    (count : ℕ) : Prop :=
  (takeBuffers count 0 w.buffer.buffers = [] ∧ w.writeFrom m src count = (⟨m, []⟩, .ok 0, w)) ∨
  ∃ bufs e, bufs = takeBuffers count 0 w.buffer.buffers ∧ bufs ≠ [] ∧
    Moved (w.addrs.take (src bufs).1.length) (src bufs).1 m e.mem ∧
    ((∃ err, (src bufs).2 = .error err ∧ w.writeFrom m src count = (e, .error err, w)) ∨
      ∃ n w', (src bufs).2 = .ok n ∧ w.writeFrom m src count = (e, .ok n, w') ∧ w.After n w')

section WriteFrom

-- the file delivers as many bytes as it says, inside the slices it was given, and none if it fails
variable (src : Source) (count : ℕ)
  (hsrc : ∀ bufs n, (src bufs).2 = .ok n → (src bufs).1.length = n ∧ n ≤ (addrsOf bufs).length)
  (hfail : ∀ bufs e, (src bufs).2 = .error e → (src bufs).1 = [])
include hsrc hfail

theorem writeFrom_filled (hw : w.Usable m) : w.WritesFrom Filled m src count := by
  have hspec := consume_spec hw.counted count (⟨m, []⟩ : WriteEffect M)
    (fun bufs => ((copyIn (src bufs).1 m bufs).1, (src bufs).2)) fun bufs n hn => (hsrc bufs n hn).2
  unfold WritesFrom writeFrom
  rcases hspec with ⟨hnil, hout⟩ | ⟨bufs, hbufs, hne, ⟨err, herr, hout⟩ | ⟨n, hn, hout⟩⟩
  · exact .inl ⟨hnil, by rw [hout]⟩
  · right
    have hfilled := (copyIn_takeBuffers hw count (src bufs).1 (by
      rw [hfail bufs err herr]; exact zero_le _)).1
    rw [← hbufs] at hfilled
    exact ⟨bufs, _, hbufs, hne, hfilled, .inl ⟨err, herr, by rw [hout]⟩⟩
  · right
    obtain ⟨hlen, hle⟩ := hsrc bufs n hn
    have hfilled := (copyIn_takeBuffers hw count (src bufs).1 (by rw [hlen, ← hbufs]; exact hle)).1
    rw [← hbufs] at hfilled
    have hmax : n ≤ w.addrs.length := by
      have := (takeBuffers_spec count 0 w.buffer.buffers).1.length_le
      rw [← hbufs] at this
      exact hle.trans this
    exact ⟨bufs, _, hbufs, hne, hfilled, .inr ⟨n, _, hn, by rw [hout],
      after_dropBytes hw.counted hmax⟩⟩

theorem writeFrom_spec (hw : w.Ready m) : w.WritesFrom Stored m src count := by
  rcases writeFrom_filled src count hsrc hfail hw.usable with hnil | ⟨bufs, e, hb, hne, hf, hres⟩
  · exact .inl hnil
  · exact .inr ⟨bufs, e, hb, hne, hf.stored (hw.nodup.sublist (take_sublist _ _)), hres⟩

end WriteFrom

/-! Where no address occurs twice, the bytes are all there afterwards. -/

theorem write_spec (hw : w.Ready m) (buf : List Byte) :
    ∃ e w', w.write m buf = (e, .ok (min buf.length w.addrs.length), w') ∧
      Stored (w.addrs.take buf.length) (buf.take w.addrs.length) m e.mem ∧
      w.After (min buf.length w.addrs.length) w' := by
  obtain ⟨e, w', hwrite, hfilled, hafter⟩ := write_filled hw.usable buf
  exact ⟨e, w', hwrite, hfilled.stored (hw.nodup.sublist (take_sublist _ _)), hafter⟩

theorem writeAll_ok (hw : w.Ready m) (h : buf.length ≤ w.addrs.length) :
    ∃ e w', w.writeAll m buf = (e, .ok (), w') ∧ Stored (w.addrs.take buf.length) buf m e.mem ∧
      w.After buf.length w' := by
  obtain ⟨e, w', hwrite, hfilled, hafter⟩ := writeAll_filled hw.usable h
  exact ⟨e, w', hwrite, hfilled.stored (hw.nodup.sublist (take_sublist _ _)), hafter⟩

theorem writeAll_short (hw : w.Ready m) (h : w.addrs.length < buf.length) :
    ∃ e w', w.writeAll m buf = (e, .error .writeZero, w') ∧
      Stored w.addrs (buf.take w.addrs.length) m e.mem := by
  obtain ⟨e, w', hwrite, hfilled⟩ := writeAll_full hw.usable h
  exact ⟨e, w', hwrite, hfilled.stored hw.nodup⟩

end Writer

end Writing

/-! ## The buffers of a chain -/

section Chain

variable [LawfulGuestMemory M] {m : M} {chain : DescriptorChain} {w : Writer}

theorem chainBuffers_spec {totalLen : ℕ} {descs : List DescriptorChain}
    {bufs : List VolatileSlice} (ht : totalLen < 2 ^ 64)
    (h : chainBuffers m totalLen descs = .ok bufs) :
    totalLen + (addrsOf bufs).length < 2 ^ 64 ∧ ∀ x ∈ addrsOf bufs, addressInRange m x = true := by
  induction descs generalizing totalLen bufs with
  | nil =>
    cases h
    exact ⟨ht, fun x hx => absurd hx not_mem_nil⟩
  | cons desc rest ih =>
    unfold chainBuffers at h
    split_ifs at h with hover
    rcases hfind : findRegion m desc.addr.toNat with _ | region <;> simp only [hfind] at h
    · cases h
    split_ifs at h with hlong
    split at h <;> cases h
    next hrest =>
    obtain ⟨hlen, hmapped⟩ := ih (by omega) hrest
    refine ⟨?_, ?_⟩
    · rw [addrsOf_cons, length_append, length_addrs]
      dsimp only
      omega
    · intro x hx
      rw [addrsOf_cons, mem_append, mem_addrs] at hx
      dsimp only at hx
      rcases hx with hx | hx
      · -- the slice lies in the region of its first byte
        have hcontains := find_contains hfind
        have hx' : region.Contains x := by
          unfold Region.Contains at hcontains ⊢
          have := hx.1; have := hx.2
          omega
        rw [addressInRange, find_of_contains hfind hx', Option.isSome_some]
      · exact hmapped x hx

omit [LawfulGuestMemory M] in
theorem chainBuffers_of_inRegion {descs : List DescriptorChain} (totalLen : ℕ)
    (hlen : totalLen + descs.length * 2 ^ 32 ≤ 2 ^ 63) (h : ∀ d ∈ descs, InRegion m d) :
    ∃ bufs, chainBuffers m totalLen descs = .ok bufs := by
  induction descs generalizing totalLen with
  | nil => exact ⟨[], rfl⟩
  | cons desc rest ih =>
    obtain ⟨⟨r, hr, hle⟩, hrest⟩ := forall_mem_cons.mp h
    rw [length_cons] at hlen
    have hdesc : desc.len.toNat < 2 ^ 32 := desc.len.isLt
    obtain ⟨bufs, hbufs⟩ := ih (totalLen + desc.len.toNat) (by omega) hrest
    refine ⟨⟨desc.addr.toNat, desc.len.toNat⟩ :: bufs, ?_⟩
    unfold chainBuffers
    rw [if_neg (by omega), Option.mem_def.mp hr]
    simp only [hbufs]
    rw [if_neg (by omega)]

omit [LawfulGuestMemory M] in
/-- The lengths of a chain cannot overflow, so that a reader and a writer can be made if every
buffer lies in a region. -/
theorem new_of_inRegion (h : ∀ d ∈ chain.intoIter.collect m, InRegion m d) :
    ∃ reader writer, Reader.new m chain = .ok reader ∧ Writer.new m chain = .ok writer := by
  have hcount : (chain.intoIter.collect m).length ≤ chain.ttl.toNat + 1 :=
    DescIter.length_drive_le m _ _
  have httl : chain.ttl.toNat < 2 ^ 16 := chain.ttl.isLt
  have hread := (takeWhile_sublist DescriptorChain.isReadOnly
    (l := chain.intoIter.collect m)).length_le
  have hwrite := (dropWhile_sublist DescriptorChain.isReadOnly
    (l := chain.intoIter.collect m)).length_le
  obtain ⟨rbufs, hr⟩ : ∃ bufs, chainBuffers m 0 (chain.intoIter.readable m) = .ok bufs :=
    chainBuffers_of_inRegion 0 (by unfold DescIter.readable; omega)
      fun d hd => h d ((takeWhile_sublist _).subset hd)
  obtain ⟨wbufs, hw⟩ : ∃ bufs, chainBuffers m 0 (chain.intoIter.writable m) = .ok bufs :=
    chainBuffers_of_inRegion 0 (by unfold DescIter.writable; omega)
      fun d hd => h d ((dropWhile_sublist _).subset hd)
  refine ⟨⟨⟨rbufs, 0⟩⟩, ⟨⟨wbufs, 0⟩⟩, ?_, ?_⟩
  · rw [Reader.new, hr]
  · rw [Writer.new, hw]

theorem Reader.new_counted {r : Reader} (h : Reader.new m chain = .ok r) : r.buffer.Counted := by
  unfold Reader.new at h
  split at h <;> cases h
  next hb => exact (chainBuffers_spec (by decide) hb).1

theorem Writer.new_usable (h : Writer.new m chain = .ok w) : w.Usable m ∧ w.bytesWritten = 0 := by
  unfold Writer.new at h
  split at h <;> cases h
  next hb =>
    obtain ⟨hlen, hmapped⟩ := chainBuffers_spec (by decide) hb
    exact ⟨⟨hlen, hmapped⟩, rfl⟩

theorem Writer.new_ready (h : Writer.new m chain = .ok w) (hnodup : w.addrs.Nodup) :
    w.Ready m ∧ w.bytesWritten = 0 := by
  obtain ⟨⟨hcounted, hmapped⟩, hzero⟩ := new_usable h
  exact ⟨⟨hcounted, hnodup, hmapped⟩, hzero⟩

end Chain

/-! ## Splitting -/

/-- The offset is the end of one of the slices, or the beginning of the first. -/
def Boundary (offset : ℕ) (l : List VolatileSlice) : Prop :=
  ∃ k ≤ l.length, (addrsOf (l.take k)).length = offset
  deriving Decidable

namespace DescriptorChainConsumer

/-- Where the offset lies: inside the slice at `pos`, `rem` bytes from its beginning, or at the
end. -/
theorem splitPosition_cases (offset : ℕ) (l : List VolatileSlice) :
    (∃ pos rem vs rest, splitPosition offset l = (some pos, rem) ∧ l.drop pos = vs :: rest ∧
      rem < vs.len ∧ (addrsOf (l.take pos)).length + rem = offset) ∨
    ∃ rem, splitPosition offset l = (none, rem) ∧ (addrsOf l).length + rem = offset := by
  induction l generalizing offset with
  | nil => simp [splitPosition]
  | cons vs rest ih =>
    unfold splitPosition
    split_ifs with hlt
    · exact .inl ⟨0, offset, vs, rest, rfl, rfl, hlt, by simp⟩
    · rcases ih (offset - vs.len) with ⟨pos, rem, vs', rest', hp, hdrop, hrem, hsum⟩ |
        ⟨rem, hp, hsum⟩
      · refine .inl ⟨pos + 1, rem, vs', rest', by rw [hp]; rfl, hdrop, hrem, ?_⟩
        simp only [take_succ_cons, addrsOf_cons, length_append, vs.length_addrs]
        omega
      · refine .inr ⟨rem, by rw [hp]; rfl, ?_⟩
        simp only [addrsOf_cons, length_append, vs.length_addrs]
        omega

theorem length_take_mono {k k' : ℕ} (h : k ≤ k') :
    (addrsOf (l.take k)).length ≤ (addrsOf (l.take k')).length := by
  have hk : l.take k = (l.take k').take k := by rw [take_take, min_eq_left h]
  conv_rhs => rw [← take_append_drop k (l.take k')]
  rw [addrsOf_append, length_append, ← hk]
  exact le_add_right _ _

theorem length_take_succ {l rest : List VolatileSlice} {pos : ℕ} (h : l.drop pos = vs :: rest) :
    (addrsOf (l.take (pos + 1))).length = (addrsOf (l.take pos)).length + vs.len := by
  have htake : l.take (pos + 1) = l.take pos ++ [vs] := by
    rw [take_add, h]
    rfl
  simp [htake]

theorem boundary_iff (offset : ℕ) (l : List VolatileSlice) :
    Boundary offset l ↔ (splitPosition offset l).2 = 0 := by
  rcases splitPosition_cases offset l with ⟨pos, rem, vs, rest, hp, hdrop, hrem, hsum⟩ |
    ⟨rem, hp, hsum⟩ <;> rw [hp]
  · have hsucc := length_take_succ hdrop
    have hpos : pos < l.length := by
      by_contra hge
      cases (drop_eq_nil_of_le (by omega)).symm.trans hdrop
    constructor
    · rintro ⟨k, hk, hlen⟩
      simp only
      rcases lt_or_ge pos k with hlt | hge
      · have := length_take_mono l (show pos + 1 ≤ k from hlt)
        omega
      · have := length_take_mono l hge
        omega
    · rintro rfl
      exact ⟨pos, hpos.le, hsum⟩
  · constructor
    · rintro ⟨k, hk, hlen⟩
      have hall := length_take_mono l hk
      rw [take_length] at hall
      simp only
      omega
    · rintro rfl
      exact ⟨l.length, le_refl _, by rw [take_length]; exact hsum⟩

theorem addrsOf_take_drop (pos : ℕ) :
    addrsOf (l.take pos) = (addrsOf l).take (addrsOf (l.take pos)).length ∧
      addrsOf (l.drop pos) = (addrsOf l).drop (addrsOf (l.take pos)).length := by
  have hl : addrsOf l = addrsOf (l.take pos) ++ addrsOf (l.drop pos) := by
    rw [← addrsOf_append, take_append_drop]
  constructor
  · rw [hl, take_left]
  · rw [hl, drop_left]

variable {c : DescriptorChainConsumer} {offset : ℕ}

theorem splitAt_boundary (h : Boundary offset c.buffers) :
    ∃ c₁ c₂, c.splitAt offset = .ok (c₁, c₂) ∧
      addrsOf c₁.buffers = (addrsOf c.buffers).take offset ∧
      addrsOf c₂.buffers = (addrsOf c.buffers).drop offset ∧
      c₁.bytesConsumed = c.bytesConsumed ∧ c₂.bytesConsumed = 0 := by
  rw [boundary_iff] at h
  unfold splitAt
  rcases splitPosition_cases offset c.buffers with ⟨pos, rem, vs, rest, hp, -, -, hsum⟩ |
    ⟨rem, hp, hsum⟩ <;> rw [hp] at h ⊢ <;> cases h <;> rw [Nat.add_zero] at hsum
  · obtain ⟨htake, hdrop⟩ := addrsOf_take_drop c.buffers pos
    rw [hsum] at htake hdrop
    exact ⟨{ c with buffers := c.buffers.take pos }, ⟨c.buffers.drop pos, 0⟩, rfl, htake, hdrop,
      rfl, rfl⟩
  · refine ⟨c, ⟨[], 0⟩, rfl, ?_, ?_, rfl, rfl⟩
    · rw [← hsum, take_length]
    · rw [← hsum, drop_length]
      rfl

theorem splitAt_cut (h : ¬ Boundary offset c.buffers) (hle : offset ≤ (addrsOf c.buffers).length) :
    ∃ pos vs rest rem, c.buffers.drop pos = vs :: rest ∧ 0 < rem ∧ rem < vs.len ∧
      (addrsOf (c.buffers.take pos)).length + rem = offset ∧
      c.splitAt offset = .ok
        ({ c with buffers := c.buffers.take pos ++ [⟨vs.addr + rem, vs.len - rem⟩] },
          ⟨⟨vs.addr + rem, vs.len - rem⟩ :: rest, 0⟩) := by
  rw [boundary_iff] at h
  unfold splitAt
  rcases splitPosition_cases offset c.buffers with ⟨pos, rem, vs, rest, hp, hdrop, hlt, hsum⟩ |
    ⟨rem, hp, hsum⟩ <;> rw [hp] at h ⊢
  · have ho : vs.offset rem = some ⟨vs.addr + rem, vs.len - rem⟩ := if_pos hlt.le
    have hpos := pos_of_ne_zero h
    exact ⟨pos, vs, rest, rem, hdrop, hpos, hlt, hsum, by simp only [if_pos hpos, hdrop, ho]⟩
  · simp only at h
    omega

/-- A cut inside a slice leaves out the beginning of the slice, from `k` to the cut, and puts the
end of it in both parts. -/
theorem splitAt_inside_slice (h : ¬ Boundary offset c.buffers)
    (hle : offset ≤ (addrsOf c.buffers).length) :
    ∃ c₁ c₂ k tail, c.splitAt offset = .ok (c₁, c₂) ∧ k < offset ∧
      addrsOf c₁.buffers = (addrsOf c.buffers).take k ++ tail ∧
      tail <+: (addrsOf c.buffers).drop offset ∧
      addrsOf c₂.buffers = (addrsOf c.buffers).drop offset ∧
      c₁.bytesConsumed = c.bytesConsumed ∧ c₂.bytesConsumed = 0 := by
  obtain ⟨pos, vs, rest, rem, hdrop, hpos, hlt, hsum, hsplit⟩ := splitAt_cut h hle
  have ho : vs.offset rem = some ⟨vs.addr + rem, vs.len - rem⟩ := if_pos hlt.le
  obtain ⟨htake, hrest⟩ := addrsOf_take_drop c.buffers pos
  have hother : addrsOf (⟨vs.addr + rem, vs.len - rem⟩ :: rest) =
      (addrsOf c.buffers).drop offset := by
    rw [← hsum, ← drop_drop, ← hrest, hdrop, addrsOf_cons, addrsOf_cons,
      addrs_offset ho, drop_append_of_le_length (by simpa using hlt.le)]
  refine ⟨_, _, (addrsOf (c.buffers.take pos)).length,
    addrs ⟨vs.addr + rem, vs.len - rem⟩, hsplit, by omega, ?_, ?_, hother, rfl, rfl⟩
  · rw [addrsOf_append, ← htake, addrsOf_cons, addrsOf_nil, append_nil]
  · rw [← hother, addrsOf_cons]
    exact prefix_append _ _

theorem splitAt_short (h : (addrsOf c.buffers).length < offset) :
    c.splitAt offset = .error (.splitOutOfBounds offset) := by
  unfold splitAt
  rcases splitPosition_cases offset c.buffers with ⟨pos, rem, vs, rest, hp, hdrop, hlt, hsum⟩ |
    ⟨rem, hp, hsum⟩ <;> rw [hp]
  · have hsucc := length_take_succ hdrop
    have hall := length_take_mono c.buffers (le_max_left (pos + 1) c.buffers.length)
    rw [take_of_length_le (le_max_right _ _)] at hall
    omega
  · simp only [if_neg (show rem ≠ 0 by omega)]

end DescriptorChainConsumer

end Shelter.Virtio
