import Shelter.Net.Rx

/-!
# No frame is lost on the way to the guest

`frames_delivered`: whatever chains the guest supplies, as long as the buffers of a chain overlap
neither each other nor the table or the used ring, the chains that were returned with a length hold
the frames that were read, whole and in order, and only the last frame may be missing; it is held
back then. A chain is returned with length 0 exactly if its buffers could not hold the frame.
-/

open Bytes

namespace Shelter.Net

open Virtio Run DescIter VolatileSlice DescriptorChain List Queue Option

variable {M : Type} [GuestMemory M]

/-! ## One chain -/

section Chain

variable {m m' : M} {slice : List Byte} {d : DescriptorChain} {rest : List DescriptorChain}

theorem accepts_congr (hempty : EmptyWritesByLayout M) (h : SameLayout m m') (addr len : ℕ) :
    accepts m' addr len = accepts m addr len := by
  unfold accepts
  rw [hempty m m' addr h]
  simp only [h.mapped_iff]

theorem canHold_congr (hempty : EmptyWritesByLayout M) (h : SameLayout m m') (n : ℕ)
    (descs : List DescriptorChain) : canHold m' n descs = canHold m n descs := by
  induction descs generalizing n with
  | nil => cases n <;> rfl
  | cons d rest ih =>
    cases n with
    | zero => rfl
    | succ n => rw [canHold, canHold, accepts_congr hempty h, ih]

theorem canHold_cons (m : M) {n : ℕ} (hn : n ≠ 0) (d : DescriptorChain)
    (rest : List DescriptorChain) :
    canHold m n (d :: rest) = (d.isWriteOnly && accepts m d.addr.toNat (min n d.len.toNat) &&
      canHold m (n - min n d.len.toNat) rest) := by
  obtain ⟨k, rfl⟩ := Nat.exists_eq_succ_of_ne_zero hn
  rfl

theorem addrsOf_slicesOf_cons (d : DescriptorChain) (rest : List DescriptorChain) :
    addrsOf (slicesOf (d :: rest)) =
      addrs ⟨d.addr.toNat, d.len.toNat⟩ ++ addrsOf (slicesOf rest) :=
  addrsOf_cons _ _

theorem mapped_of_accepts {addr len : ℕ} (h : accepts m addr len = true) : Mapped m addr len := by
  unfold accepts at h
  split_ifs at h with hzero
  · intro i hi
    omega
  · exact of_decide_eq_true h

/-- What the loop over a chain does if it does not write over the table: the frame is in the first
buffers, or they cannot hold it. -/
structure WroteChain (m : M) (slice : List Byte) (descs : List DescriptorChain)
    (out : M × Except FrontendError (List Byte)) : Prop where
  layout : SameLayout m out.1
  frame : ∀ x ∉ addrsOf (slicesOf descs), byte out.1 x = byte m x
  held : canHold m slice.length descs = true →
    frameResult out.2 = .ok () ∧
      Filled ((addrsOf (slicesOf descs)).take slice.length) slice m out.1
  refused : canHold m slice.length descs = false → frameResult out.2 ≠ .ok ()

theorem wroteChain_nil (m : M) (slice : List Byte) : WroteChain m slice [] (m, .ok slice) where
  layout := .refl m
  frame _ _ := rfl
  held h := by
    cases slice with
    | nil => exact ⟨rfl, Filled.refl m⟩
    | cons b bs => cases h
  refused h := by
    cases slice with
    | nil => cases h
    | cons b bs => exact nofun

theorem wroteChain_done (m : M) (descs : List DescriptorChain) :
    WroteChain m [] descs (m, .ok []) where
  layout := .refl m
  frame _ _ := rfl
  held _ := ⟨rfl, by simpa using Filled.refl m⟩
  refused h := by cases descs <;> cases h

theorem wroteChain_refused {e : FrontendError} (hlayout : SameLayout m m')
    (hframe : ∀ x ∉ addrs ⟨d.addr.toNat, d.len.toNat⟩, byte m' x = byte m x)
    (hcan : canHold m slice.length (d :: rest) = false) :
    WroteChain m slice (d :: rest) (m', .error e) where
  layout := hlayout
  frame x hx := by
    rw [addrsOf_slicesOf_cons, mem_append, not_or] at hx
    exact hframe x hx.1
  held h := by rw [hcan] at h; cases h
  refused _ := nofun

theorem wroteChain_cons (hempty : EmptyWritesByLayout M) (hne : slice ≠ [])
    {out : M × Except FrontendError (List Byte)} (hw : d.isWriteOnly = true)
    (hstored : Stored (List.range' d.addr.toNat (min slice.length d.len.toNat))
      (slice.take (min slice.length d.len.toNat)) m m')
    (hacc : accepts m d.addr.toNat (min slice.length d.len.toNat) = true)
    (h : WroteChain m' (slice.drop (min slice.length d.len.toNat)) rest out) :
    WroteChain m slice (d :: rest) out := by
  have hlen : slice.length ≠ 0 := fun h0 => hne (length_eq_zero_iff.mp h0)
  have hcan : canHold m slice.length (d :: rest) =
      canHold m' (slice.drop (min slice.length d.len.toNat)).length rest := by
    rw [canHold_cons m hlen, hw, hacc, canHold_congr hempty hstored.layout, length_drop]
    rfl
  refine ⟨hstored.layout.trans h.layout, fun x hx => ?_, fun hc => ?_, fun hc => ?_⟩
  · rw [addrsOf_slicesOf_cons, mem_append, not_or, mem_addrs] at hx
    rw [h.frame x hx.2]
    refine hstored.frame x fun hmem => hx.1 ?_
    rw [mem_range'_1] at hmem
    exact ⟨hmem.1, by show x < d.addr.toNat + d.len.toNat; omega⟩
  · rw [hcan] at hc
    obtain ⟨hres, hfilled⟩ := h.held hc
    refine ⟨hres, ?_⟩
    have hall := (hstored.filled nodup_range').append hfilled
    rw [take_append_drop] at hall
    rw [addrsOf_slicesOf_cons, take_append, take_addrs,
      length_addrs]
    rw [length_drop] at hall
    have hrest : slice.length - min slice.length d.len.toNat = slice.length - d.len.toNat := by
      omega
    rw [hrest] at hall
    exact hall
  · rw [hcan] at hc
    exact h.refused hc

variable [LawfulGuestMemory M]

theorem accepts_eq (m : M) (addr : ℕ) (bs : List Byte) :
    accepts m addr bs.length = (writeSlice m addr bs).2 := by
  unfold accepts
  by_cases h : bs = []
  · subst h
    rfl
  · rw [if_neg (by simpa using h), Bool.eq_iff_iff, decide_eq_true_eq,
      LawfulGuestMemory.writeSlice_ok h]

theorem drive_of_stored {as : List ℕ} {bs : List Byte} (h : Stored as bs m m')
    (hapart : ∀ x ∈ as, ¬ Range d.descTable.toNat (16 * d.queueSize.toNat) x) (fuel : ℕ) :
    d.nextDescriptor m' = d.nextDescriptor m ∧
      drive m' fuel ⟨d.nextDescriptor m⟩ = drive m fuel ⟨d.nextDescriptor m⟩ := by
  have hsame : SameOn d.descTable.toNat (16 * d.queueSize.toNat) m m' := by
    intro x hx
    exact h.frame x fun hmem => hapart x hmem hx
  constructor
  · unfold nextDescriptor
    rw [checkedNew_congr h.layout hsame]
  · cases hc : d.nextDescriptor m with
    | none => rw [drive_none, drive_none]
    | some e =>
      obtain ⟨hlink, -⟩ := nextDescriptor_some hc
      exact drive_congr h.layout fuel e (by rw [hlink.table, hlink.size]; exact hsame)

theorem writeChain_spec (hempty : EmptyWritesByLayout M) (table : U64) (size : U16) (fuel : ℕ)
    (m : M) (slice : List Byte) (o : Option DescriptorChain)
    (htable : ∀ d ∈ o, d.descTable = table ∧ d.queueSize = size)
    (hapart : ∀ x ∈ addrsOf (slicesOf (drive m fuel ⟨o⟩).1),
      ¬ Range table.toNat (16 * size.toNat) x) :
    WroteChain m slice (drive m fuel ⟨o⟩).1 (writeChain fuel m slice o) := by
  induction fuel generalizing m slice o with
  | zero => exact wroteChain_nil m slice
  | succ fuel ih =>
    cases o with
    | none =>
      exact wroteChain_nil m slice
    | some d =>
      rw [drive_succ] at hapart ⊢
      rw [writeChain]
      by_cases hne : slice = []
      · subst hne
        exact wroteChain_done m _
      have hlen : slice.length ≠ 0 := fun h0 => hne (length_eq_zero_iff.mp h0)
      rw [if_neg (by simpa using hne)]
      by_cases hw : d.isWriteOnly = true
      · rw [if_neg (by rw [hw]; nofun)]
        set n := min slice.length d.len.toNat with hn
        have htake : (slice.take n).length = n := length_take_of_le (by omega)
        have hacc := accepts_eq m d.addr.toNat (slice.take n)
        have hlayout : SameLayout m (writeSlice m d.addr.toNat (slice.take n)).1 :=
          LawfulGuestMemory.writeSlice_find m _ _
        have hout := writeSlice_sameOutside m d.addr.toNat (slice.take n)
        rw [htake] at hacc hout
        rcases hres : writeSlice m d.addr.toNat (slice.take n) with ⟨m', _ | _⟩
        · simp only [hres] at hacc hlayout hout ⊢
          refine wroteChain_refused hlayout (fun x hx => hout x fun hr => hx ?_) ?_
          · rw [mem_addrs]
            exact hr.mono le_rfl (by show _ ≤ d.addr.toNat + d.len.toNat; omega)
          · rw [canHold_cons m hlen, hw, hacc]
            rfl
        · have hmapped : Mapped m d.addr.toNat (slice.take n).length := by
            rw [htake]
            exact mapped_of_accepts (hacc.trans (by rw [hres]))
          have hstored := stored_writeSlice hmapped
          rw [htake, hres] at hstored
          rw [hres] at hacc
          obtain ⟨ht, hs⟩ := htable d rfl
          -- the rest of the chain is as it was before the write
          obtain ⟨hnext, hdrive⟩ := drive_of_stored hstored (d := d) (fun x hx => by
            rw [ht, hs]
            refine hapart x ?_
            rw [addrsOf_slicesOf_cons, mem_append, mem_addrs]
            rw [mem_range'_1] at hx
            exact .inl ⟨hx.1, by show x < d.addr.toNat + d.len.toNat; omega⟩) fuel
          simp only [hres, hnext]
          have hrest := ih m' (slice.drop n) (d.nextDescriptor m)
            (fun e he => by
              obtain ⟨hlink, -⟩ := nextDescriptor_some he
              exact ⟨hlink.table.trans ht, hlink.size.trans hs⟩)
            (fun x hx => by
              rw [hdrive] at hx
              refine hapart x ?_
              exact mem_append_right _ hx)
          rw [hdrive] at hrest
          exact wroteChain_cons hempty hne hw hstored hacc hrest
      · rw [if_pos (by simpa using hw)]
        refine wroteChain_refused (.refl m) (fun _ _ => rfl) ?_
        rw [canHold_cons m hlen]
        simp [hw]

end Chain

/-! ## One attempt -/

/-- The buffers of the chain overlap neither each other nor the table or the used ring. -/
@[mk_iff] structure Separate (q : Queue) (m : M) (head : DescriptorChain) : Prop where
  nodup : (addrsOf (buffersOf m head)).Nodup
  table : ∀ x ∈ addrsOf (buffersOf m head), ¬ Range q.descTable.toNat (16 * q.actualSize.toNat) x
  used : ∀ x ∈ addrsOf (buffersOf m head), ¬ Range q.usedRing.toNat (6 + 8 * q.size.toNat) x

instance (q : Queue) (m : M) (head : DescriptorChain) : Decidable (Separate q m head) :=
  decidable_of_iff' _ (separate_iff ..)

/-- In `write_frame_to_guest` for a frame that was just read. -/
def RxPc.isWriting : RxPc → Bool
  | .writing _ _ _ => true
  | .idle | .entering _ | .retrying _ _ | .reading _ _ | .leaving _ | .panicked => false

def RxPc.Deferred (pc : RxPc) (b : Bool) : Prop :=
  match pc with
  | .retrying _ _ => b = true
  | .reading _ _ | .writing _ _ _ => b = false
  | .idle | .entering _ | .leaving _ | .panicked => True

namespace RxWorker

variable (s : RxWorker M)

def nextChain : Option DescriptorChain := (s.queue.pop s.mem).bind (·.1)

/-- The chain that is taken next has buffers that do not overlap. -/
def Supplied : Prop := ∀ head ∈ s.nextChain, Separate s.queue s.mem head
  deriving Decidable

/-- A chain was taken out of the queue and put in the used ring; only its buffers and the used ring
were written. -/
structure Took (s : RxWorker M) (head : DescriptorChain) (q : Queue) (m : M) : Prop where
  next : s.nextChain = some head
  config : Queue.SameConfig s.queue q
  nextAvail : q.nextAvail = s.queue.nextAvail + 1
  layout : SameLayout s.mem m
  frame : ∀ x ∉ addrsOf (buffersOf s.mem head),
    ¬ Range s.queue.usedRing.toNat (6 + 8 * s.queue.size.toNat) x → byte m x = byte s.mem x

/-- The outcomes of an attempt to put the frame into a chain. -/
inductive Attempt (s : RxWorker M) : Except FrontendError Unit → RxWorker M → Prop
  | empty : s.nextChain = none → Attempt s (.error .emptyQueue) s
  | delivered {head : DescriptorChain} {q : Queue} {m : M} {u : RxUsed} : Took s head q m →
      u.fits = true → u.len.toNat = s.frame.length → u.bytes = s.frame →
      Attempt s (.ok ()) { s with
        queue := q, mem := m, popped := s.popped + 1, returned := s.returned ++ [u] }
  | refused {head : DescriptorChain} {q : Queue} {m : M} {u : RxUsed} {e : FrontendError} :
      Took s head q m → u.fits = false → u.len = 0 →
      Attempt s (.error e) { s with
        queue := q, mem := m, popped := s.popped + 1, returned := s.returned ++ [u] }

section Attempts

variable {s : RxWorker M} {m : M}

/-- What is stored in the buffers is still there when the chain is in the used ring. -/
theorem contents_of_sameOutside {m' : M} {a n : ℕ} {as : List ℕ}
    (h : SameOutside (Range a n) m m') (has : ∀ x ∈ as, ¬ Range a n x) :
    contents m' as = contents m as := by
  exact map_congr_left fun x hx => h x (has x hx)

theorem pop_chain {q q' : Queue} {head : DescriptorChain} (h : q.pop m = some (some head, q')) :
    q' = { q with nextAvail := q.nextAvail + 1 } ∧ head.index < q.size ∧
      head.descTable = q.descTable ∧ head.queueSize = q.actualSize := by
  unfold Queue.pop at h
  simp only [bind_eq_bind, bind_eq_some_iff] at h
  obtain ⟨n, -, h⟩ := h
  split_ifs at h
  · cases h
  · obtain ⟨hd, heq⟩ := popEntry_some h
    rcases popAt_cases q m hd with ⟨c, hc, hidx, hc'⟩ | ⟨-, hc'⟩
    · rw [hc'] at heq
      cases heq
      obtain ⟨hlt, htab, hsz, -⟩ := checkedNew_some hc
      have hle := actualSize_le q
      exact ⟨rfl, by rw [hidx]; bv_omega, htab, hsz⟩
    · rw [hc'] at heq
      cases heq

variable [LawfulGuestMemory M]

theorem attempt (hempty : EmptyWritesByLayout M) (hr : s.queue.RingsMapped s.mem)
    (hsup : s.Supplied) (hlen : s.frame.length ≤ maxBufferSize) :
    ∃ r s', s.writeFrameToGuestImpl = some (r, s') ∧ Attempt s r s' := by
  unfold writeFrameToGuestImpl
  rcases hpop : s.queue.pop s.mem with _ | ⟨_ | head, q⟩
  · rw [pop_eq hr] at hpop
    split_ifs at hpop
  · have hq : q = s.queue := by
      rcases pop_cases hpop with heq | ⟨c, heq, -⟩ <;> cases heq
      rfl
    subst hq
    exact ⟨_, _, rfl, .empty (by rw [nextChain, hpop]; rfl)⟩
  · obtain ⟨rfl, hindex, htable, hsize⟩ := pop_chain hpop
    have hnext : s.nextChain = some head := by rw [nextChain, hpop]; rfl
    obtain ⟨hnodup, hapart, hused⟩ := hsup head hnext
    have hw := writeChain_spec hempty s.queue.descTable s.queue.actualSize (head.ttl.toNat + 1)
      s.mem s.frame (some head) (by rintro _ ⟨⟩; exact ⟨htable, hsize⟩) hapart
    -- the chain can be put in the used ring
    generalize hout : writeChain (head.ttl.toNat + 1) s.mem s.frame (some head) = out at hw
    have hrings := hr.congr (.withNextAvail s.queue (s.queue.nextAvail + 1)) hw.layout
    have hcan : canHold s.mem s.frame.length (drive s.mem (head.ttl.toNat + 1)
        ⟨some head⟩).1 = canHold s.mem s.frame.length (head.intoIter.collect s.mem) := rfl
    obtain ⟨m, hadd, hlayout, hring⟩ := addUsed_run hrings hindex
      (if (frameResult out.2).isOk then BitVec.ofNat 32 s.frame.length else 0)
    have htook : Took s head (Queue.bumpUsed { s.queue with
        nextAvail := s.queue.nextAvail + 1 }) m := by
      refine ⟨hnext, (Queue.SameConfig.withNextAvail _ _).trans (.bumpUsed _), rfl,
        hw.layout.trans hlayout, fun x hx hx' => ?_⟩
      rw [hring x hx']
      exact hw.frame x hx
    simp only [hout, hadd]
    by_cases hfits : canHold s.mem s.frame.length (head.intoIter.collect s.mem) = true
    · obtain ⟨hres, hfilled⟩ := hw.held hfits
      have hsmall : (BitVec.ofNat 32 s.frame.length).toNat = s.frame.length := by
        rw [BitVec.toNat_ofNat, Nat.mod_eq_of_lt]
        unfold maxBufferSize at hlen
        omega
      rw [hres]
      refine ⟨_, _, rfl, .delivered htook hfits hsmall ?_⟩
      show contents m ((addrsOf (buffersOf s.mem head)).take
        (BitVec.ofNat 32 s.frame.length).toNat) = s.frame
      rw [hsmall, contents_of_sameOutside hring fun x hx => hused x (mem_of_mem_take hx)]
      exact (hfilled.stored (hnodup.sublist (take_sublist _ _))).bytes
    · have hno := hw.refused (by rw [hcan]; simpa using hfits)
      rcases hres : frameResult out.2 with e | ⟨⟩
      · exact ⟨_, _, rfl, .refused htook (Bool.eq_false_iff.mpr hfits) rfl⟩
      · exact absurd hres hno

end Attempts

/-! ## The steps -/

/-- What the handler does with the notifications before `process_rx`, and after it. -/
inductive Notified (s : RxWorker M) (enable : Bool) : M → Prop
  | mk {m : M} : s.queue.setNotification s.mem enable = .ok m → SameLayout s.mem m →
      SameOutside (Range s.queue.usedRing.toNat (6 + 8 * s.queue.size.toNat)) s.mem m →
      Notified s enable m

inductive Move (s : RxWorker M) : RxStep → RxWorker M → Prop
  | kicked : s.pc = .idle → Move s .queueEvent { s with pc := .entering .queue }
  | woken : s.pc = .idle → Move s .socketEvent { s with pc := .entering .socket }
  | entered {event : RxEvent} {m : M} : s.pc = .entering event →
      Notified s (event == .socket) m → Move s .notify ({ s with mem := m }.processRx event)
  | left {event : RxEvent} {m : M} : s.pc = .leaving event → Notified s (event == .queue) m →
      Move s .notify { s with mem := m, pc := .idle }
  | gaveUp {event : RxEvent} : s.pc = .retrying event 0 →
      Move s .write { s with pc := .leaving event }
  | retried {event : RxEvent} {tries : ℕ} {s' : RxWorker M} : s.pc = .retrying event (tries + 1) →
      Attempt s (.ok ()) s' →
      Move s .write { s' with hasDeferredFrame := false, pc := .reading event false }
  | retryFailed {event : RxEvent} {tries : ℕ} {e : FrontendError} {s' : RxWorker M} :
      s.pc = .retrying event (tries + 1) → Attempt s (.error e) s' →
      Move s .write { s' with pc := .retrying event tries }
  | heldBack {event : RxEvent} {signal : Bool} {k : ℕ} : s.pc = .writing event signal 0 →
      Move s .write { s with hasDeferredFrame := true, pc := .leaving event, interrupts := k }
  | wrote {event : RxEvent} {signal : Bool} {tries : ℕ} {s' : RxWorker M} :
      s.pc = .writing event signal (tries + 1) → Attempt s (.ok ()) s' →
      Move s .write { s' with pc := .reading event true }
  | writeFailed {event : RxEvent} {signal : Bool} {tries : ℕ} {e : FrontendError}
      {s' : RxWorker M} : s.pc = .writing event signal (tries + 1) → Attempt s (.error e) s' →
      Move s .write { s' with pc := .writing event signal tries }
  | received {event : RxEvent} {signal : Bool} {frame : List Byte} :
      s.pc = .reading event signal → vnetHdrLen + frame.length ≤ maxBufferSize →
      Move s (.read (.ok frame)) { s with
        frame := virtioNetHdr ++ frame
        pc := .writing event signal s.queue.actualSize.toNat
        arrived := s.arrived ++ [frame] }
  | drained {event : RxEvent} {signal : Bool} {answer : ReadAnswer} {k : ℕ} :
      s.pc = .reading event signal → (∀ frame, answer ≠ .ok frame) →
      Move s (.read answer) { s with pc := .leaving event, interrupts := k }
  | guest {addr : ℕ} {bs : List Byte} :
      Move s (.guest addr bs) { s with mem := (writeSlice s.mem addr bs).1 }

section Steps

variable [LawfulGuestMemory M] {s s' : RxWorker M}

theorem notified_enable (h : s.queue.RingsMapped s.mem) :
    ∃ m, (s.queue.enableNotification s.mem).2 = m ∧ Notified s true m := by
  obtain ⟨m, hset, hlayout, hout⟩ := setNotification_ok h true
  refine ⟨m, ?_, .mk hset hlayout hout⟩
  unfold Queue.enableNotification
  rw [hset]

theorem notified_disable (h : s.queue.RingsMapped s.mem) :
    ∃ m, s.queue.disableNotification s.mem = .ok m ∧ Notified s false m := by
  obtain ⟨m, hset, hlayout, hout⟩ := setNotification_ok h false
  exact ⟨m, hset, .mk hset hlayout hout⟩

theorem move_notify (h : s.queue.RingsMapped s.mem) {s' : RxWorker M}
    (hs : s.step .notify = some s') : Move s .notify s' := by
  obtain ⟨m, hen, hnen⟩ := notified_enable h
  obtain ⟨m', hdis, hndis⟩ := notified_disable h
  simp only [step] at hs
  split at hs
  · rename_i event hpc
    cases hs
    cases event with
    | queue =>
      simp only [enter, hdis]
      exact .entered hpc hndis
    | socket =>
      simp only [enter, hen]
      exact .entered hpc hnen
  · rename_i event hpc
    cases hs
    cases event with
    | queue =>
      simp only [leave, hen]
      exact .left hpc hnen
    | socket =>
      simp only [leave, hdis]
      exact .left hpc hndis
  · cases hs

theorem move_write (hempty : EmptyWritesByLayout M) (h : s.queue.RingsMapped s.mem)
    (hlen : s.frame.length ≤ maxBufferSize) (hsup : s.Supplied) (hs : s.step .write = some s') :
    Move s .write s' := by
  obtain ⟨r, t, himpl, hatt⟩ := attempt hempty h hsup hlen
  simp only [step] at hs
  split at hs
  · rename_i event tries hpc
    cases hs
    cases tries with
    | zero => exact .gaveUp hpc
    | succ tries =>
      simp only [retry, himpl]
      rcases r with e | ⟨⟩
      · exact .retryFailed hpc hatt
      · exact .retried hpc hatt
  · rename_i event signal tries hpc
    cases hs
    cases tries with
    | zero => exact .heldBack hpc
    | succ tries =>
      simp only [write, himpl]
      rcases r with e | ⟨⟩
      · exact .writeFailed hpc hatt
      · exact .wrote hpc hatt
  · cases hs

omit [LawfulGuestMemory M] in
theorem move_read {answer : ReadAnswer} (hs : s.step (.read answer) = some s') :
    Move s (.read answer) s' := by
  simp only [step] at hs
  split at hs
  · rename_i event signal hpc
    cases answer with
    | ok frame =>
      obtain ⟨hle, rfl⟩ := ite_some_none_eq_some.mp hs
      exact .received hpc hle
    | nothingRead | internal =>
      cases hs
      exact .drained hpc nofun
  · cases hs

/-- A step is one of the moves, if the rings are usable and the frame to write is not too long. -/
theorem move_of_step (hempty : EmptyWritesByLayout M) (h : s.queue.RingsMapped s.mem)
    (hlen : s.frame.length ≤ maxBufferSize) {e : RxStep} (hsup : e = .write → s.Supplied)
    (hs : s.step e = some s') : Move s e s' := by
  cases e with
  | queueEvent =>
    obtain ⟨hpc, rfl⟩ := ite_some_none_eq_some.mp hs
    exact .kicked hpc
  | socketEvent =>
    obtain ⟨hpc, rfl⟩ := ite_some_none_eq_some.mp hs
    exact .woken hpc
  | notify => exact move_notify h hs
  | write => exact move_write hempty h hlen (hsup rfl) hs
  | read answer => exact move_read hs
  | guest addr bs =>
    cases hs
    exact .guest

end Steps

/-! ## The frames -/

def holding : Bool := s.hasDeferredFrame || s.pc.isWriting

def held : List (List Byte) := if s.holding then [s.frame] else []

/-- What the guest finds in the chains that came back with a length. -/
def delivered (returned : List RxUsed) : List (List Byte) :=
  (returned.filter fun u => u.len != 0).map (·.bytes)

/-- The frames that were read are in the chains that came back with a length, in order, but for the
one that waits; the lengths are right, a chain has length 0 exactly if it could not hold the frame,
and every chain that was taken has come back. -/
structure Delivered (s : RxWorker M) : Prop where
  frames : delivered s.returned ++ s.held = s.arrived.map (virtioNetHdr ++ ·)
  lengths : ∀ u ∈ s.returned, u.len ≠ 0 → u.len.toNat = u.bytes.length
  refused : ∀ u ∈ s.returned, u.len = 0 ↔ u.fits = false
  returned : s.popped = s.returned.length

structure Fresh (s : RxWorker M) : Prop where
  rings : s.queue.RingsMapped s.mem
  idle : s.pc = .idle
  frame : s.frame = []
  deferred : s.hasDeferredFrame = false
  popped : s.popped = 0
  arrived : s.arrived = []
  returned : s.returned = []

structure Inv (s : RxWorker M) : Prop extends Delivered s where
  rings : s.queue.RingsMapped s.mem
  running : s.pc ≠ .panicked
  short : s.frame.length ≤ maxBufferSize
  header : s.holding = true → vnetHdrLen ≤ s.frame.length
  deferred : s.pc.Deferred s.hasDeferredFrame

section Frames

variable {s s' : RxWorker M}

theorem Fresh.inv (h : s.Fresh) : s.Inv where
  frames := by
    rw [delivered, held, holding, h.returned, h.arrived, h.deferred, h.idle]
    rfl
  lengths := by rw [h.returned]; nofun
  refused := by rw [h.returned]; nofun
  returned := by rw [h.popped, h.returned]; rfl
  rings := h.rings
  running := by rw [h.idle]; nofun
  short := by rw [h.frame]; exact Nat.zero_le _
  header := by rw [holding, h.deferred, h.idle]; nofun
  deferred := by rw [h.idle]; trivial

variable {pc : RxPc} {t : RxWorker M}

theorem Inv.at_pc (h : s.Inv) (hpc : s.pc = pc) : Inv { s with pc := pc } := by
  subst hpc
  exact h

theorem delivered_append (returned : List RxUsed) (u : RxUsed) :
    delivered (returned ++ [u]) =
      delivered returned ++ if u.len = 0 then [] else [u.bytes] := by
  unfold delivered
  rw [filter_append, map_append]
  congr 1
  split_ifs with h
  · rw [filter_cons_of_neg (by simpa using h)]
    rfl
  · rw [filter_cons_of_pos (by simpa using h)]
    rfl

theorem Inv.accounts (h : s.Inv) {u : RxUsed} (hlen : u.len ≠ 0 → u.len.toNat = u.bytes.length)
    (hfits : u.len = 0 ↔ u.fits = false) :
    (∀ v ∈ s.returned ++ [u], v.len ≠ 0 → v.len.toNat = v.bytes.length) ∧
      (∀ v ∈ s.returned ++ [u], v.len = 0 ↔ v.fits = false) ∧
      s.popped + 1 = (s.returned ++ [u]).length := by
  refine ⟨forall_mem_snoc h.lengths hlen, forall_mem_snoc h.refused hfits, ?_⟩
  rw [length_append, h.returned]
  rfl

theorem Inv.deliver (h : s.Inv) (hhold : s.holding = true) (ha : Attempt s (.ok ()) t)
    (event : RxEvent) (signal : Bool) :
    Inv { t with hasDeferredFrame := false, pc := .reading event signal } := by
  cases ha with
  | @delivered head q m u htook hfits hlen hbytes =>
    have hheader := h.header hhold
    have hne : u.len ≠ 0 := by
      intro h0
      have hzero : u.len.toNat = 0 := by rw [h0]; rfl
      unfold vnetHdrLen at hheader
      omega
    obtain ⟨hlens, hrefs, hcount⟩ := h.accounts (u := u) (fun _ => by rw [hlen, hbytes])
      ⟨fun h0 => absurd h0 hne, fun hf => by rw [hfits] at hf; cases hf⟩
    refine ⟨⟨?_, hlens, hrefs, hcount⟩, h.rings.congr htook.config htook.layout, nofun, h.short,
      nofun, rfl⟩
    have hframes := h.frames
    rw [held, hhold, if_pos rfl] at hframes
    show delivered (s.returned ++ [u]) ++ [] = _
    rw [delivered_append, if_neg hne, hbytes, append_nil]
    exact hframes

theorem Attempt.pc_eq {r : Except FrontendError Unit} (ha : Attempt s r t) : t.pc = s.pc := by
  cases ha <;> rfl

theorem Inv.fail (h : s.Inv) {e : FrontendError} (ha : Attempt s (.error e) t) : t.Inv := by
  cases ha with
  | empty => exact h
  | @refused head q m u e htook hfits hlen =>
    obtain ⟨hlens, hrefs, hcount⟩ := h.accounts (u := u) (fun hne => absurd hlen hne)
      ⟨fun _ => hfits, fun _ => hlen⟩
    refine { h with
      frames := ?_, lengths := hlens, refused := hrefs, returned := hcount,
      rings := h.rings.congr htook.config htook.layout }
    rw [← h.frames]
    show delivered (s.returned ++ [u]) ++ _ = _
    rw [delivered_append, if_pos hlen, append_nil]
    rfl

theorem Inv.receive (h : s.Inv) {event : RxEvent} {signal : Bool}
    (hpc : s.pc = .reading event signal)
    {frame : List Byte} (hle : vnetHdrLen + frame.length ≤ maxBufferSize) {tries : ℕ} :
    Inv { s with
      frame := virtioNetHdr ++ frame
      pc := .writing event signal tries
      arrived := s.arrived ++ [frame] } := by
  replace h := h.at_pc hpc
  have hlen : (virtioNetHdr ++ frame).length = vnetHdrLen + frame.length := by
    rw [length_append, virtioNetHdr, length_replicate]
  have hframes : delivered s.returned ++ (if s.hasDeferredFrame || false then [s.frame] else []) =
    s.arrived.map (virtioNetHdr ++ ·) := h.frames
  rw [show s.hasDeferredFrame = false from h.deferred] at hframes
  refine { h with
    frames := ?_, running := nofun, short := hlen.trans_le hle,
    header := fun _ => hlen.ge.trans' (Nat.le_add_right _ _) }
  show delivered s.returned ++ (if s.hasDeferredFrame || true then [virtioNetHdr ++ frame]
    else []) = (s.arrived ++ [frame]).map (virtioNetHdr ++ ·)
  rw [Bool.or_true, map_append, ← hframes]
  simp

theorem Inv.move [LawfulGuestMemory M] (h : s.Inv) {e : RxStep} (hm : Move s e s') : s'.Inv := by
  cases hm with
  | kicked hpc | woken hpc | gaveUp hpc | drained hpc =>
    exact { h.at_pc hpc with running := nofun, deferred := trivial }
  | entered hpc hn =>
    obtain ⟨-, hlayout, -⟩ := hn
    have hrings := h.rings.congr (.refl _) hlayout
    unfold processRx
    split_ifs with hd
    · exact { h.at_pc hpc with rings := hrings, running := nofun, deferred := hd }
    · exact { h.at_pc hpc with
        rings := hrings, running := nofun, deferred := Bool.eq_false_iff.mpr hd }
  | left hpc hn =>
    obtain ⟨-, hlayout, -⟩ := hn
    exact { h.at_pc hpc with
      rings := h.rings.congr (.refl _) hlayout, running := nofun, deferred := trivial }
  | retried hpc ha =>
    have hd : s.hasDeferredFrame = true := (h.at_pc hpc).deferred
    exact h.deliver (by rw [holding, hd]; rfl) ha _ _
  | retryFailed hpc ha | writeFailed hpc ha =>
    exact { (h.fail ha).at_pc (ha.pc_eq.trans hpc) with running := nofun }
  | heldBack hpc =>
    replace h := h.at_pc hpc
    have hframes := h.frames
    have hheader := h.header
    rw [held, holding, RxPc.isWriting, Bool.or_true] at hframes
    rw [holding, RxPc.isWriting, Bool.or_true] at hheader
    exact { h with frames := hframes, running := nofun, header := hheader, deferred := trivial }
  | @wrote event signal tries t hpc ha =>
    have hd : s.hasDeferredFrame = false := (h.at_pc hpc).deferred
    have hhold : s.holding = true := by rw [holding, hpc]; exact Bool.or_true _
    have hinv := h.deliver hhold ha event true
    cases ha with
    | delivered htook hfits hlen hbytes =>
      rw [← hd] at hinv
      exact hinv
  | received hpc hle => exact h.receive hpc hle
  | guest =>
    exact { h with
      rings := h.rings.congr (.refl _) (LawfulGuestMemory.writeSlice_find s.mem _ _) }

end Frames

/-- **No frame is lost, doubled or reordered.** -/
theorem frames_delivered [LawfulGuestMemory M] (hempty : EmptyWritesByLayout M)
    {s₀ s : RxWorker M} {steps : List RxStep} (h : s₀.Fresh)
    (hc : Along step (fun s e => e = .write → s.Supplied) s₀ steps)
    (hr : run step s₀ steps = some s) : s.Delivered := by
  have hinv : s.Inv := by
    refine along_invariant (P := Inv) (fun s e s' hinv hsup hs => ?_) h.inv hc hr
    exact hinv.move (move_of_step hempty hinv.rings hinv.short hsup hs)
  exact hinv.toDelivered

def new (q : Queue) (m : M) : RxWorker M where
  queue := q
  mem := m
  frame := []
  hasDeferredFrame := false
  pc := .idle
  interrupts := 0
  popped := 0
  arrived := []
  returned := []

theorem new_fresh {q : Queue} {m : M} (h : q.RingsMapped m) : (new q m).Fresh :=
  ⟨h, rfl, rfl, rfl, rfl, rfl, rfl⟩

theorem emptyWrites_flatMemory : EmptyWritesByLayout FlatMemory := fun _ _ _ _ => rfl

/-- A chain that is too small, one that is not for writing and one of two buffers. -/
def threeChains : RxWorker FlatMemory :=
  new smallQueue ((((((smallMemory.put 0 (Descriptor.toBytes ⟨0x100, 8, 2, 0⟩)).put 16
    (Descriptor.toBytes ⟨0x110, 16, 0, 0⟩)).put 32 (Descriptor.toBytes ⟨0x120, 10, 3, 3⟩)).put 48
    (Descriptor.toBytes ⟨0x130, 10, 2, 0⟩)).put 0x82 (leBytes 2 3)).put 0x84
    (leBytes 2 0 ++ leBytes 2 1 ++ leBytes 2 2))

/-- Two frames arrive; the second one is held back until the third chain is supplied again. -/
def twoFrames : List RxStep :=
  [.socketEvent, .notify, .read (.ok [7, 8]), .write, .write, .write, .read (.ok [9]), .write,
    .write, .write, .write, .write, .notify, .guest 0x8a [2, 0], .guest 0x82 [4, 0], .queueEvent,
    .notify, .write, .read .nothingRead, .notify]

theorem frames_delivered_two :
    Along step (fun s e => e = .write → s.Supplied) threeChains twoFrames ∧
      ∃ s, run step threeChains twoFrames = some s ∧ s.Delivered ∧
        s.returned.map (·.bytes) = [[], [], virtioNetHdr ++ [7, 8], virtioNetHdr ++ [9]] := by
  have hc : Along step (fun s e => e = .write → s.Supplied) threeChains twoFrames := by
    decide +kernel
  obtain ⟨s, hs, hret⟩ : ∃ s, run step threeChains twoFrames = some s ∧ s.returned.map (·.bytes) =
      [[], [], virtioNetHdr ++ [7, 8], virtioNetHdr ++ [9]] := by decide +kernel
  have hfresh : threeChains.Fresh := new_fresh (smallQueue_rings.congr (.refl _) fun _ => rfl)
  exact ⟨hc, s, hs, frames_delivered emptyWrites_flatMemory hfresh hc hs, hret⟩

end RxWorker

end Shelter.Net
