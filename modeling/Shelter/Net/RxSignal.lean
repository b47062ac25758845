import Mathlib.Data.List.Induction
import Shelter.Net.RxFrames
import Shelter.Virtio.Service

/-!
# When the driver is told about received frames

`process_rx` decides with a local flag whether it interrupts the driver, and only a frame that was
both read and delivered by this call sets the flag. A chain is also used for the frame held back
from an earlier call, and for every attempt that fails; the driver is not told about these.
`signals_iff`: for which chains and frames it is told all the same.
-/

open Bytes

namespace Shelter.Net

open Virtio Run

variable {M : Type} [GuestMemory M]

/-- The frame that the backend has in a step. -/
def RxStep.frame? : RxStep → Option (List Byte)
  | .read (.ok frame) => some frame
  | _ => none

/-- A step of `process_rx`. -/
def RxStep.isOwn : RxStep → Bool
  | .write | .read _ => true
  | .queueEvent | .socketEvent | .notify | .guest _ _ => false

def firstFrame (es : List RxStep) : Option (List Byte) := es.findSome? RxStep.frame?

namespace RxWorker

def service (s : RxWorker M) : ServiceState M Unit := ⟨s.queue, s.mem, ()⟩

/-- If a chain was put in the used ring, the driver was interrupted. -/
def Signals (s s' : RxWorker M) : Prop :=
  s.returned.length < s'.returned.length → s.interrupts < s'.interrupts

/-- A call of `process_rx`, while the guest does not write. -/
structure Call (s : RxWorker M) (event : RxEvent) (es : List RxStep) (s' : RxWorker M) : Prop where
  run : run step (s.processRx event) es = some s'
  own : ∀ e ∈ es, e.isOwn = true
  left : s'.pc = .leaving event

/-- `n` chains can be popped, with buffers that overlap neither each other nor the rings. -/
structure Offers (s : RxWorker M) (n : ℕ) : Prop where
  placed : s.service.Placed
  ready : s.service.Ready n
  separate : ∀ i < n, ∀ c ∈ s.service.chainAt i, Separate s.queue s.mem c ∧
    ∀ x ∈ addrsOf (buffersOf s.mem c),
      ¬ Range s.queue.availRing.toNat (6 + 2 * s.queue.size.toNat) x
  short : s.frame.length ≤ maxBufferSize

variable (s : RxWorker M) (n : ℕ)

/-- The pending chain `i` can hold this many bytes. -/
def Holds (len i : ℕ) : Prop :=
  ∃ c, s.service.chainAt i = some c ∧ canHold s.mem len (c.intoIter.collect s.mem) = true

/-- The first chain that is tried for a frame of the call: the one behind the first chain that can
hold the frame held back, if there is such a frame. -/
def Starts (k : ℕ) : Prop :=
  if s.hasDeferredFrame then
    ∃ j, k = j + 1 ∧ j < n ∧ j < s.queue.actualSize.toNat ∧ s.Holds s.frame.length j ∧
      ∀ i < j, ¬ s.Holds s.frame.length i
  else k = 0

/-- A frame that the call reads first can be delivered. -/
def Delivers (frame : List Byte) : Prop :=
  ∃ k, s.Starts n k ∧ ∃ i, k ≤ i ∧ i < n ∧ i < k + s.queue.actualSize.toNat ∧
    s.Holds (virtioNetHdr ++ frame).length i

/-- `k` chains were put in the used ring since the call began. -/
structure Counted (k : ℕ) (t : RxWorker M) : Prop where
  after : s.service.After k t.service
  le : k ≤ n
  returned : t.returned.length = s.returned.length + k
  short : t.frame.length ≤ maxBufferSize

/-- The pending chains from `a` on were tried for a frame of this length, in vain so far. -/
structure Tried (len a tries : ℕ) (t : RxWorker M) : Prop where
  tries_le : tries ≤ s.queue.actualSize.toNat
  counted : s.Counted n (min n (a + (s.queue.actualSize.toNat - tries))) t
  none : ∀ i, a ≤ i → i < min n (a + (s.queue.actualSize.toNat - tries)) → ¬ s.Holds len i

/-- How far the call has got, with the first frame that was read. -/
inductive Stage (t : RxWorker M) : Option (List Byte) → Prop
  | retrying {event : RxEvent} {tries : ℕ} :
      (t.pc = .retrying event tries ∨ tries = 0 ∧ t.pc = .leaving event) →
      t.interrupts = s.interrupts → s.hasDeferredFrame = true → t.frame = s.frame →
      s.Tried n s.frame.length 0 tries t → Stage t none
  | reading {event : RxEvent} {k : ℕ} :
      (t.pc = .reading event false ∨ t.pc = .leaving event) → t.interrupts = s.interrupts →
      s.Starts n k → s.Counted n k t → Stage t none
  | writing {event : RxEvent} {tries k : ℕ} {frame : List Byte} :
      (t.pc = .writing event false tries ∨ tries = 0 ∧ t.pc = .leaving event) →
      t.interrupts = s.interrupts → s.Starts n k → k ≤ n → t.frame = virtioNetHdr ++ frame →
      s.Tried n (virtioNetHdr ++ frame).length k tries t → Stage t (some frame)
  | signalled {event : RxEvent} {k : ℕ} {frame : List Byte} :
      (t.interrupts = s.interrupts ∧
          (t.pc = .reading event true ∨ ∃ tries, t.pc = .writing event true tries) ∨
        s.interrupts < t.interrupts ∧ t.pc = .leaving event) →
      s.Delivers n frame → s.Counted n k t → Stage t (some frame)

variable {s n} {t t' : RxWorker M} {k : ℕ} {r : Except FrontendError Unit} {event : RxEvent}

/-! ## One attempt -/

theorem impl_fits {head : DescriptorChain} {u : RxUsed} (h : t.writeFrameToGuestImpl = some (r, t'))
    (hnext : t.nextChain = some head) (hret : t'.returned = t.returned ++ [u]) :
    u.fits = canHold t.mem t.frame.length (head.intoIter.collect t.mem) := by
  unfold writeFrameToGuestImpl at h
  unfold nextChain at hnext
  rcases hpop : t.queue.pop t.mem with _ | ⟨_ | c, q⟩ <;> rw [hpop] at h hnext <;> cases hnext
  dsimp only at h
  split at h <;> cases h
  · obtain rfl := List.singleton_inj.mp (List.append_cancel_left hret)
    rfl
  · simp at hret

variable [LawfulGuestMemory M]

theorem Counted.nextChain (ho : s.Offers n) (h : s.Counted n k t) :
    t.nextChain = if k = n then none else s.service.chainAt k := by
  unfold RxWorker.nextChain
  rw [show t.queue.pop t.mem = _ from h.after.pop_ready ho.placed ho.ready h.le]
  split_ifs <;> rfl

omit [LawfulGuestMemory M] in
theorem Counted.config (h : s.Counted n k t) : Queue.SameConfig s.queue t.queue :=
  h.after.kept.config

omit [LawfulGuestMemory M] in
theorem Counted.layout (h : s.Counted n k t) : SameLayout s.mem t.mem := h.after.kept.layout

theorem Counted.collect (h : s.Counted n k t) {head : DescriptorChain} {i : ℕ}
    (hc : s.service.chainAt i = some head) :
    head.intoIter.collect t.mem = head.intoIter.collect s.mem :=
  ServiceState.collect_after hc h.after

theorem Counted.buffers (h : s.Counted n k t) {head : DescriptorChain} {i : ℕ}
    (hc : s.service.chainAt i = some head) : buffersOf t.mem head = buffersOf s.mem head := by
  rw [buffersOf, h.collect hc, buffersOf]

theorem Counted.took (ho : s.Offers n) (h : s.Counted n k t) {head : DescriptorChain}
    (hc : s.service.chainAt k = some head) (hk : k < n) {q : Queue} {m : M}
    (ht : Took t head q m) : s.service.After (k + 1) ⟨q, m, ()⟩ := by
  obtain ⟨hsep, hring⟩ := ho.separate k hk head hc
  have hpop := h.after.popped (by have := ho.ready.le; omega)
  have hout : ∀ x, x ∉ addrsOf (buffersOf s.mem head) →
      ¬ Range s.queue.usedRing.toNat (6 + 8 * s.queue.size.toNat) x → byte m x = byte t.mem x := by
    intro x hx hx'
    refine ht.frame x (by rwa [h.buffers hc]) ?_
    rwa [h.config.usedRing, h.config.size]
  have hnext : q.nextAvail = t.queue.nextAvail + 1 := ht.nextAvail
  refine ⟨⟨h.after.kept.config.trans ht.config, h.after.kept.layout.trans ht.layout, ?_, ?_⟩,
    hnext.trans hpop.nextAvail, hpop.le⟩
  · exact h.after.kept.avail.trans fun x hx => hout x (fun hmem => hring x hmem hx)
      fun hx' => ho.placed.apartAvail x hx' hx
  · exact h.after.kept.table.trans fun x hx => hout x (fun hmem => hsep.table x hmem hx)
      fun hx' => ho.placed.apartTable x hx' hx

theorem Counted.supplied (ho : s.Offers n) (h : s.Counted n k t) : t.Supplied := by
  intro head hhead
  rw [h.nextChain ho] at hhead
  split_ifs at hhead with hk
  · cases hhead
  have hc : s.service.chainAt k = some head := hhead
  obtain ⟨⟨hnodup, htable, hused⟩, -⟩ := ho.separate k (lt_of_le_of_ne h.le hk) head hc
  rw [← h.buffers hc] at hnodup htable hused
  exact ⟨hnodup, by rwa [h.config.descTable, h.config.actualSize],
    by rwa [h.config.usedRing, h.config.size]⟩

theorem Counted.attempt (hempty : EmptyWritesByLayout M) (ho : s.Offers n) (h : s.Counted n k t) :
    ∃ r t', t.writeFrameToGuestImpl = some (r, t') ∧ s.Counted n (min n (k + 1)) t' ∧
      t'.interrupts = t.interrupts ∧ t'.frame = t.frame ∧
      (r = .ok () ↔ k < n ∧ s.Holds t.frame.length k) := by
  have hle := h.le
  obtain ⟨r, t', himpl, hatt⟩ :=
    RxWorker.attempt hempty (h.after.rings ho.placed) (h.supplied ho) h.short
  refine ⟨r, t', himpl, ?_⟩
  have hnext := h.nextChain ho
  -- a chain that was taken is the pending chain `k`
  have htaken {head : DescriptorChain} {q : Queue} {m : M} {u : RxUsed} (ht : Took t head q m)
      (himpl : t.writeFrameToGuestImpl = some (r, { t with
        queue := q, mem := m, popped := t.popped + 1, returned := t.returned ++ [u] })) :
      k < n ∧ (u.fits = true ↔ s.Holds t.frame.length k) ∧ s.Counted n (min n (k + 1)) { t with
        queue := q, mem := m, popped := t.popped + 1, returned := t.returned ++ [u] } := by
    rw [ht.next] at hnext
    split_ifs at hnext with hk
    have hlt : k < n := lt_of_le_of_ne hle hk
    have hfits := impl_fits himpl ht.next rfl
    rw [h.collect hnext.symm, canHold_congr hempty h.layout] at hfits
    refine ⟨hlt, ?_, ?_⟩
    · rw [hfits]
      constructor
      · exact fun hcan => ⟨head, hnext.symm, hcan⟩
      · rintro ⟨c, hc, hcan⟩
        cases hnext.trans hc
        exact hcan
    · rw [Nat.min_eq_right hlt]
      exact ⟨h.took ho hnext.symm hlt ht, hlt, by simp [h.returned, Nat.add_assoc], h.short⟩
  cases hatt with
  | empty hnone =>
    obtain rfl : k = n := by
      by_contra hk
      rw [hnone, if_neg hk] at hnext
      have := ho.ready.accepted k (lt_of_le_of_ne hle hk)
      rw [← hnext] at this
      cases this
    rw [Nat.min_eq_left k.le_succ]
    exact ⟨h, rfl, rfl, iff_of_false nofun fun hk => absurd hk.1 (lt_irrefl k)⟩
  | delivered htook hfits =>
    obtain ⟨hlt, hholds, hcounted⟩ := htaken htook himpl
    exact ⟨hcounted, rfl, rfl, iff_of_true rfl ⟨hlt, hholds.mp hfits⟩⟩
  | refused htook hfits =>
    obtain ⟨hlt, hholds, hcounted⟩ := htaken htook himpl
    refine ⟨hcounted, rfl, rfl, iff_of_false nofun fun hk => ?_⟩
    rw [hholds.mpr hk.2] at hfits
    cases hfits

theorem Tried.attempt (hempty : EmptyWritesByLayout M) (ho : s.Offers n) {a tries : ℕ}
    (h : s.Tried n t.frame.length a (tries + 1) t) :
    ∃ r t', t.writeFrameToGuestImpl = some (r, t') ∧ t'.interrupts = t.interrupts ∧
      t'.frame = t.frame ∧
      (r = .ok () → ∃ i, a ≤ i ∧ i < n ∧ i < a + s.queue.actualSize.toNat ∧
        s.Holds t.frame.length i ∧ (∀ j, a ≤ j → j < i → ¬ s.Holds t.frame.length j) ∧
        s.Counted n (i + 1) t') ∧
      (r ≠ .ok () → s.Tried n t.frame.length a tries t') := by
  obtain ⟨r, t', himpl, hcount, hint, hframe, hok⟩ := h.counted.attempt hempty ho
  have htries := h.tries_le
  refine ⟨r, t', himpl, hint, hframe, fun hr => ?_, fun hr => ⟨by omega, ?_, fun i hai hi => ?_⟩⟩
  · obtain ⟨hlt, hholds⟩ := hok.mp hr
    rw [Nat.min_eq_right hlt] at hcount
    exact ⟨_, by omega, hlt, by omega, hholds, h.none, hcount⟩
  · convert hcount using 1
    omega
  · by_cases hlast : i < min n (a + (s.queue.actualSize.toNat - (tries + 1)))
    · exact h.none i hai hlast
    · intro hholds
      refine hr (hok.mpr ⟨by omega, ?_⟩)
      convert hholds using 1
      omega

/-! ## The call -/

omit [LawfulGuestMemory M] in
theorem Counted.at (h : s.Counted n k t) (b : Bool) (pc : RxPc) (i : ℕ) :
    s.Counted n k { t with hasDeferredFrame := b, pc := pc, interrupts := i } :=
  ⟨h.after, h.le, h.returned, h.short⟩

theorem Stage.retry (hempty : EmptyWritesByLayout M) (ho : s.Offers n) {tries : ℕ}
    (hpc : t.pc = .retrying event tries) (hint : t.interrupts = s.interrupts)
    (hdef : s.hasDeferredFrame = true) (hframe : t.frame = s.frame)
    (h : s.Tried n s.frame.length 0 tries t) : s.Stage n (t.retry event tries) none := by
  cases tries with
  | zero => exact .retrying (.inr ⟨rfl, rfl⟩) hint hdef hframe ⟨h.1, h.2.at .., h.3⟩
  | succ tries =>
    rw [← hframe] at h
    obtain ⟨r, t', himpl, hint', hframe', hok, hfail⟩ := h.attempt hempty ho
    rw [hframe] at hok hfail
    unfold RxWorker.retry
    rw [himpl]
    cases r with
    | ok =>
      obtain ⟨i, -, hn, hsize, hholds, hfirst, hcount⟩ := hok rfl
      refine .reading (.inl rfl) (hint'.trans hint) ?_ (hcount.at ..)
      rw [Starts, if_pos hdef]
      exact ⟨i, rfl, hn, by omega, hholds, fun j hj => hfirst j (Nat.zero_le j) hj⟩
    | error e =>
      have h' := hfail nofun
      exact .retrying (.inl rfl) (hint'.trans hint) hdef (hframe'.trans hframe)
        ⟨h'.1, h'.2.at .., h'.3⟩

theorem Stage.write (hempty : EmptyWritesByLayout M) (ho : s.Offers n) {tries : ℕ}
    {frame : List Byte} (hint : t.interrupts = s.interrupts) (hstart : s.Starts n k) (hk : k ≤ n)
    (hframe : t.frame = virtioNetHdr ++ frame)
    (h : s.Tried n (virtioNetHdr ++ frame).length k tries t) :
    s.Stage n (t.write event false tries) (some frame) := by
  cases tries with
  | zero => exact .writing (.inr ⟨rfl, rfl⟩) hint hstart hk hframe ⟨h.1, h.2.at .., h.3⟩
  | succ tries =>
    rw [← hframe] at h
    obtain ⟨r, t', himpl, hint', hframe', hok, hfail⟩ := h.attempt hempty ho
    rw [hframe] at hok hfail
    unfold RxWorker.write
    rw [himpl]
    cases r with
    | ok =>
      obtain ⟨i, hki, hn, hsize, hholds, -, hcount⟩ := hok rfl
      exact .signalled (.inl ⟨hint'.trans hint, .inl rfl⟩) ⟨k, hstart, i, hki, hn, hsize, hholds⟩
        (hcount.at ..)
    | error e =>
      have h' := hfail nofun
      exact .writing (.inl rfl) (hint'.trans hint) hstart hk (hframe'.trans hframe)
        ⟨h'.1, h'.2.at .., h'.3⟩

/-- Once a frame of the call is delivered, the flag stays set. -/
theorem Stage.writeAgain (hempty : EmptyWritesByLayout M) (ho : s.Offers n) {tries : ℕ}
    {frame : List Byte} (hint : t.interrupts = s.interrupts) (hd : s.Delivers n frame)
    (h : s.Counted n k t) : s.Stage n (t.write event true tries) (some frame) := by
  cases tries with
  | zero =>
    exact .signalled (.inr ⟨by simp [RxWorker.write, finish, hint], rfl⟩) hd (h.at ..)
  | succ tries =>
    obtain ⟨r, t', himpl, hcount, hint', -⟩ := h.attempt hempty ho
    unfold RxWorker.write
    rw [himpl]
    cases r with
    | ok => exact .signalled (.inl ⟨hint'.trans hint, .inl rfl⟩) hd (hcount.at ..)
    | error e => exact .signalled (.inl ⟨hint'.trans hint, .inr ⟨tries, rfl⟩⟩) hd (hcount.at ..)

omit [LawfulGuestMemory M] in
theorem step_read {signal : Bool} {answer : ReadAnswer} (hpc : t.pc = .reading event signal)
    (hstep : t.step (.read answer) = some t') :
    t' = t.read event signal answer ∧
      ∀ frame, answer = .ok frame → (virtioNetHdr ++ frame).length ≤ maxBufferSize := by
  simp only [RxWorker.step, hpc] at hstep
  cases answer with
  | ok frame =>
    obtain ⟨hle, ⟨⟩⟩ := Option.ite_none_right_eq_some.mp hstep
    refine ⟨rfl, fun frame' heq => ?_⟩
    cases heq
    rwa [List.length_append]
  | nothingRead | internal =>
    cases hstep
    exact ⟨rfl, fun _ heq => by cases heq⟩

omit [LawfulGuestMemory M] in
theorem Stage.read {o : Option (List Byte)} {answer : ReadAnswer} (h : s.Stage n t o)
    (hstep : t.step (.read answer) = some t') :
    s.Stage n t' (o.or (RxStep.read answer).frame?) := by
  cases h with
  | retrying hpc | writing hpc =>
    rcases hpc with hpc | ⟨-, hpc⟩ <;> simp [RxWorker.step, hpc] at hstep
  | @reading event k hpc hint hstart hcount =>
    rcases hpc with hpc | hpc
    · obtain ⟨rfl, hle⟩ := step_read hpc hstep
      cases answer with
      | ok frame =>
        have hsize : t.queue.actualSize.toNat = s.queue.actualSize.toNat := by
          rw [hcount.config.actualSize]
        refine .writing (.inl rfl) hint hstart hcount.le rfl ⟨hsize.le, ?_, fun i hki hi => ?_⟩
        · rw [hsize, Nat.sub_self, Nat.add_zero, Nat.min_eq_right hcount.le]
          exact ⟨hcount.after, hcount.le, hcount.returned, hle _ rfl⟩
        · omega
      | nothingRead | internal => exact .reading (.inr rfl) hint hstart (hcount.at ..)
    · simp [RxWorker.step, hpc] at hstep
  | signalled hpc hd hcount =>
    rcases hpc with ⟨hint, hpc | ⟨tries, hpc⟩⟩ | ⟨-, hpc⟩
    · obtain ⟨rfl, hle⟩ := step_read hpc hstep
      cases answer with
      | ok frame =>
        exact .signalled (.inl ⟨hint, .inr ⟨_, rfl⟩⟩) hd
          ⟨hcount.after, hcount.le, hcount.returned, hle _ rfl⟩
      | nothingRead | internal =>
        exact .signalled (.inr ⟨by simp [RxWorker.read, finish, hint], rfl⟩) hd (hcount.at ..)
    all_goals simp [RxWorker.step, hpc] at hstep

theorem Stage.step {o : Option (List Byte)} {e : RxStep} (hempty : EmptyWritesByLayout M)
    (ho : s.Offers n) (h : s.Stage n t o) (he : e.isOwn = true) (hstep : t.step e = some t') :
    s.Stage n t' (o.or e.frame?) := by
  cases e with
  | queueEvent | socketEvent | notify | guest => cases he
  | read answer => exact h.read hstep
  | write =>
    rw [show (RxStep.write).frame? = none from rfl, Option.or_none]
    cases h with
    | retrying hpc hint hdef hframe htried =>
      rcases hpc with hpc | ⟨-, hpc⟩ <;> simp only [RxWorker.step, hpc] at hstep <;> cases hstep
      exact .retry hempty ho hpc hint hdef hframe htried
    | reading hpc =>
      rcases hpc with hpc | hpc <;> simp [RxWorker.step, hpc] at hstep
    | writing hpc hint hstart hk hframe htried =>
      rcases hpc with hpc | ⟨-, hpc⟩ <;> simp only [RxWorker.step, hpc] at hstep <;> cases hstep
      exact .write hempty ho hint hstart hk hframe htried
    | signalled hpc hd hcount =>
      rcases hpc with ⟨hint, hpc | ⟨tries, hpc⟩⟩ | ⟨-, hpc⟩ <;>
        simp only [RxWorker.step, hpc] at hstep <;> cases hstep
      exact .writeAgain hempty ho hint hd hcount

theorem Call.stage (hempty : EmptyWritesByLayout M) (ho : s.Offers n) {es : List RxStep}
    (hrun : Run.run step (s.processRx event) es = some t) (hown : ∀ e ∈ es, e.isOwn = true) :
    s.Stage n t (firstFrame es) := by
  have hzero (pc : RxPc) : s.Counted n 0 { s with pc := pc } :=
    ⟨.refl _, Nat.zero_le n, rfl, ho.short⟩
  induction es using List.reverseRecOn generalizing t with
  | nil =>
    obtain rfl := Option.some.inj hrun
    unfold processRx
    split_ifs with hdef
    · refine .retrying (.inl rfl) rfl hdef rfl ⟨le_rfl, ?_, fun i _ hi => ?_⟩
      · simpa using hzero _
      · simp at hi
    · exact .reading (.inl rfl) rfl (by rw [Starts, if_neg hdef]) (hzero _)
  | append_singleton es e ih =>
    rw [run_snoc] at hrun
    obtain ⟨t₁, hrun, hstep⟩ := Option.bind_eq_some_iff.mp hrun
    obtain ⟨hes, he⟩ := List.forall_mem_append.mp hown
    have hlast := he e (List.mem_singleton_self e)
    simpa [firstFrame, List.findSome?_append] using (ih hrun hes).step hempty ho hlast hstep

omit [LawfulGuestMemory M] in
theorem starts_unique {k k' : ℕ} (h : s.Starts n k) (h' : s.Starts n k') : k = k' := by
  unfold Starts at h h'
  split_ifs at h h'
  · obtain ⟨j, rfl, -, -, hj, hfirst⟩ := h
    obtain ⟨j', rfl, -, -, hj', hfirst'⟩ := h'
    rcases lt_trichotomy j j' with hlt | rfl | hlt
    · exact absurd hj (hfirst' j hlt)
    · rfl
    · exact absurd hj' (hfirst j' hlt)
  · rw [h, h']

/-- **Signals.** A call of `process_rx` tells the driver about the chains it has used exactly if
there is no chain, or no frame at all, or one of the chains that are tried for the first frame the
call reads can hold it. -/
theorem signals_iff (hempty : EmptyWritesByLayout M) (ho : s.Offers n) {es : List RxStep}
    {s' : RxWorker M} (h : Call s event es s') :
    Signals s s' ↔ n = 0 ∨ s.hasDeferredFrame = false ∧ firstFrame es = none ∨
      ∃ frame, firstFrame es = some frame ∧ s.Delivers n frame := by
  have hstage := Call.stage hempty ho h.run h.own
  have hsize : n ≠ 0 → s.queue.actualSize.toNat ≠ 0 := by
    intro hn h0
    have haccepted := ho.ready.accepted 0 (Nat.pos_of_ne_zero hn)
    rw [ServiceState.chainAt, if_pos (BitVec.eq_of_toNat_eq h0)] at haccepted
    cases haccepted
  unfold Signals
  generalize firstFrame es = o at hstage ⊢
  cases hstage with
  | retrying hpc hint hdef hframe htried =>
    obtain rfl := (hpc.resolve_left (by simp [h.left])).1
    have hret := htried.counted.returned
    simp [hdef, hret, hint]
    omega
  | reading hpc hint hstart hcount =>
    have hret := hcount.returned
    unfold Starts at hstart
    split_ifs at hstart with hdef
    · obtain ⟨j, rfl, hj, -⟩ := hstart
      simp [hdef, hret, hint]
      omega
    · simp [Bool.eq_false_iff.mpr hdef, hret, hint, hstart]
  | @writing event tries k frame hpc hint hstart hk hframe htried =>
    obtain rfl := (hpc.resolve_left (by simp [h.left])).1
    have hret := htried.counted.returned
    have hno : ¬ s.Delivers n frame := by
      rintro ⟨k', hstart', i, hki, hn, hi, hholds⟩
      obtain rfl := starts_unique hstart hstart'
      exact htried.none i hki (by omega) hholds
    simp [hret, hint, hno]
    omega
  | signalled hpc hd hcount =>
    have hint : s.interrupts < s'.interrupts := by
      rcases hpc with ⟨-, hpc | ⟨tries, hpc⟩⟩ | ⟨hint, -⟩
      · simp [h.left] at hpc
      · simp [h.left] at hpc
      · exact hint
    exact iff_of_true (fun _ => hint) (.inr (.inr ⟨_, rfl, hd⟩))

theorem threeChains_offers : threeChains.Offers 3 where
  placed := ⟨smallQueue_rings.congr (.refl _) fun _ => rfl, smallQueue_apart,
    apart_of_le (by decide)⟩
  ready := ⟨by decide +kernel, by decide +kernel, .inl (by decide +kernel)⟩
  separate := by decide +kernel
  short := Nat.zero_le _

theorem signals_third_chain :
    ∃ s, Call threeChains .socket
        [.read (.ok [7, 8]), .write, .write, .write, .read .nothingRead] s ∧
      s.returned.length = 3 ∧ Signals threeChains s := by
  obtain ⟨s, hs, hpc, hret⟩ : ∃ s, run step (threeChains.processRx .socket)
      [.read (.ok [7, 8]), .write, .write, .write, .read .nothingRead] = some s ∧
        s.pc = .leaving .socket ∧ s.returned.length = 3 := by decide +kernel
  have hcall : Call threeChains .socket
      [.read (.ok [7, 8]), .write, .write, .write, .read .nothingRead] s :=
    ⟨hs, by decide, hpc⟩
  refine ⟨s, hcall, hret, (signals_iff emptyWrites_flatMemory threeChains_offers
    hcall).mpr (.inr (.inr ⟨_, rfl, 0, rfl, 2, by decide, by decide, by decide +kernel, ?_⟩))⟩
  obtain ⟨c, hc, hcan⟩ : ∃ c, threeChains.service.chainAt 2 = some c ∧
      canHold threeChains.mem 14 (c.intoIter.collect threeChains.mem) = true := by decide +kernel
  exact ⟨c, hc, hcan⟩

/-- A frame is held back, and three chains are available. -/
def heldBack : RxWorker FlatMemory :=
  { threeChains with hasDeferredFrame := true, frame := virtioNetHdr ++ [7, 8] }

/-- The frame goes into the third chain, after two attempts that failed, and no other frame is
there. -/
theorem used_without_signal :
    ∃ s, Call heldBack .queue [.write, .write, .write, .read .nothingRead] s ∧
      s.returned.length = 3 ∧ ¬ Signals heldBack s := by
  obtain ⟨s, hs, hpc, hret, hint⟩ : ∃ s, run step (heldBack.processRx .queue)
      [.write, .write, .write, .read .nothingRead] = some s ∧
        s.pc = .leaving .queue ∧ s.returned.length = 3 ∧ s.interrupts = 0 := by decide +kernel
  refine ⟨s, ⟨hs, by decide, hpc⟩, hret, fun h => ?_⟩
  have hlt : 0 < s.interrupts := h (by rw [hret]; decide)
  omega

end RxWorker

end Shelter.Net
