import Shelter.Net.RxFrames
import Shelter.Virtio.Notify

/-!
# A frame held back and the wake-up of the worker

The worker sleeps with a frame held back until the driver kicks the receive queue or the socket has
an event. `no_frame_stuck`: it is not left asleep with a chain for the frame, if at the end of every
handler that holds a frame back no chain is available and, for the handler of the socket, the queue
has `EVENT_IDX` and no chain was taken since the handler enabled notifications. The handlers do not
see to that themselves: the one of the socket ends with notifications disabled, and the one of the
queue does not look at what `enable_notification` says. The runs at the end are those that go wrong.
-/

open Bytes

namespace Shelter.Net

open Virtio Run Option

variable {M : Type} [GuestMemory M]

/-- The worker, the driver of the receive queue and the socket. -/
structure RxSystem (M : Type) where
  worker : RxWorker M
  /-- the event of the queue is signalled -/
  kick : Bool
  /-- the event of the socket is pending; it is edge-triggered -/
  readable : Bool
  /-- the frames that the backend has sent -/
  inbox : List (List Byte)
  /-- how many chains the driver has published -/
  published : ℕ
  /-- how many were published when the driver last checked whether to kick -/
  checked : ℕ
  /-- the driver found that it has to kick and has not done so yet -/
  decided : Bool

inductive RxSystemStep
  | worker (e : RxStep)
  /-- the driver writes to guest memory, and by that publishes `k` chains -/
  | publish (addr : ℕ) (bs : List Byte) (k : ℕ)
  | check
  | kick
  /-- the backend sends a frame -/
  | arrive (frame : List Byte)
  deriving DecidableEq, Repr

def RxPc.ends : RxPc → Option RxEvent
  | .leaving event => some event
  | .idle | .entering _ | .retrying _ _ | .reading _ _ | .writing _ _ _ | .panicked => none

namespace RxSystem

variable (s : RxSystem M)

/-- What a driver and a worker around one queue share. The worker counts as asleep only while a
frame is held back. -/
def notify : NotifyState M where
  queue := s.worker.queue
  mem := s.worker.mem
  pc := if s.worker.pc = .idle ∧ s.worker.hasDeferredFrame then .idle else .processing
  kick := s.kick
  published := s.published
  popped := s.worker.popped
  checked := s.checked
  decided := s.decided

/-- One step. The worker wakes up for a pending event, and reads what the backend has sent. -/
def step : RxSystemStep → Option (RxSystem M)
  | .worker .queueEvent =>
    if s.kick then (s.worker.step .queueEvent).map fun w => { s with worker := w, kick := false }
    else none
  | .worker .socketEvent =>
    if s.readable then
      (s.worker.step .socketEvent).map fun w => { s with worker := w, readable := false }
    else none
  | .worker (.read (.ok frame)) =>
    match s.inbox with
    | first :: rest =>
      if first = frame then
        (s.worker.step (.read (.ok frame))).map fun w => { s with worker := w, inbox := rest }
      else none
    | [] => none
  | .worker (.read .nothingRead) =>
    if s.inbox = [] then (s.worker.step (.read .nothingRead)).map fun w => { s with worker := w }
    else none
  | .worker (.read .internal) =>
    (s.worker.step (.read .internal)).map fun w => { s with worker := w }
  | .worker .notify => (s.worker.step .notify).map fun w => { s with worker := w }
  | .worker .write => (s.worker.step .write).map fun w => { s with worker := w }
  | .worker (.guest _ _) => none
  | .publish addr bs k =>
    some { s with
      worker := { s.worker with mem := (writeSlice s.worker.mem addr bs).1 }
      published := s.published + k }
  | .check =>
    some { s with checked := s.published, decided := s.decided || s.notify.kickRequired }
  | .kick => some { s with kick := true, decided := false }
  | .arrive frame => some { s with readable := true, inbox := s.inbox ++ [frame] }

/-- The worker sleeps with a frame held back and a chain for it, and nothing will wake it up. -/
@[mk_iff] structure Stuck (s : RxSystem M) : Prop where
  idle : s.worker.pc = .idle
  held : s.worker.hasDeferredFrame = true
  chain : ∃ head ∈ s.worker.nextChain,
    canHold s.worker.mem s.worker.frame.length (head.intoIter.collect s.worker.mem) = true
  noKick : s.kick = false
  noEvent : s.readable = false
  atRest : s.checked = s.published ∧ s.decided = false

instance : Decidable s.Stuck :=
  decidable_of_iff' _ (stuck_iff ..)

/-- The driver follows the rules of the ring: it does not write in the used ring, the index counts
the chains it has published, no more than `size` of which were not popped, and the buffers of a
chain do not lie in the rings. -/
def Follows : RxSystemStep → Prop
  | .publish addr bs k =>
    Apart addr bs.length s.worker.queue.usedRing.toNat (6 + 8 * s.worker.queue.size.toNat) ∧
      s.worker.queue.availIdxField (writeSlice s.worker.mem addr bs).1 =
        BitVec.ofNat 16 (s.published + k) ∧
      s.published + k ≤ s.worker.popped + s.worker.queue.size.toNat ∧
      s.published + k - s.checked < 2 ^ 16
  | .worker .write => ∀ head ∈ s.worker.nextChain,
    Separate s.worker.queue s.worker.mem head ∧
      ∀ x ∈ addrsOf (buffersOf s.worker.mem head),
        ¬ Range s.worker.queue.availRing.toNat (6 + 2 * s.worker.queue.size.toNat) x
  | .worker _ | .check | .kick | .arrive _ => True

instance (e : RxSystemStep) : Decidable (s.Follows e) := by
  unfold Follows
  split <;> infer_instance

/-- A handler that ends with a frame held back finds no chain, and leaves notifications enabled. -/
def Careful : RxSystemStep → Prop
  | .worker .notify => ∀ event ∈ s.worker.pc.ends, s.worker.hasDeferredFrame = true →
    s.worker.queue.availIdxField s.worker.mem = s.worker.queue.nextAvail ∧
      (event = .socket → s.worker.queue.eventIdxEnabled = true ∧
        s.worker.queue.availEventField s.worker.mem = s.worker.queue.nextAvail)
  | .worker _ | .publish _ _ _ | .check | .kick | .arrive _ => True

instance (e : RxSystemStep) : Decidable (s.Careful e) := by
  unfold Careful
  split <;> infer_instance

/-! ## The invariant -/

structure Inv (s : RxSystem M) : Prop where
  notify : NotifyInv s.notify
  short : s.worker.frame.length ≤ maxBufferSize

section Steps

variable {s t : RxSystem M}

theorem inv_of_base (hb : NotifyBase s.notify) (hs : s.worker.frame.length ≤ maxBufferSize)
    (hawake : ¬ (s.worker.pc = .idle ∧ s.worker.hasDeferredFrame = true)) : s.Inv :=
  ⟨hb.busy (.inr (.inr (.inl (if_neg hawake)))), hs⟩

theorem Inv.driver (h : s.Inv) (hd : DriverStep s.notify t.notify)
    (hframe : t.worker.frame = s.worker.frame) : t.Inv :=
  ⟨notifyInv_driver h.notify hd, hframe ▸ h.short⟩

variable [LawfulGuestMemory M] {r : Except FrontendError Unit} {w : RxWorker M} {e : RxStep}
  {kick readable : Bool} {inbox : List (List Byte)}

theorem popped_lt_of_next (h : NotifyBase s.notify) {head : DescriptorChain}
    (hnext : s.worker.nextChain = some head) : s.worker.popped < s.published := by
  refine h.popped_lt fun hidx => ?_
  have hrings : s.worker.queue.RingsMapped s.worker.mem := h.rings
  have hidx : s.worker.queue.availIdxField s.worker.mem = s.worker.queue.nextAvail := hidx
  rw [RxWorker.nextChain, Queue.pop_eq hrings, if_pos (.inl hidx)] at hnext
  cases hnext

theorem base_took (h : NotifyBase s.notify) {head : DescriptorChain} {q : Queue} {m : M}
    (ht : s.worker.Took head q m)
    (havail : ∀ x ∈ addrsOf (buffersOf s.worker.mem head),
      ¬ Range s.worker.queue.availRing.toNat (6 + 2 * s.worker.queue.size.toNat) x) :
    NotifyBase { s.notify with queue := q, mem := m, popped := s.worker.popped + 1 } := by
  have hsame : SameOn s.worker.queue.availRing.toNat (6 + 2 * s.worker.queue.size.toNat)
      s.worker.mem m := by
    intro x hx
    exact ht.frame x (fun hmem => havail x hmem hx) fun hused => h.apart x hused hx
  have hpop := (h.write ht.layout hsame).pop (popped_lt_of_next h ht.next)
  exact hpop.requeue { ht.config with } ht.nextAvail

theorem base_attempt (h : NotifyBase s.notify) (ha : s.worker.Attempt r w)
    (hf : ∀ head ∈ s.worker.nextChain, ∀ x ∈ addrsOf (buffersOf s.worker.mem head),
      ¬ Range s.worker.queue.availRing.toNat (6 + 2 * s.worker.queue.size.toNat) x) :
    NotifyBase { s.notify with queue := w.queue, mem := w.mem, popped := w.popped } := by
  cases ha with
  | empty => exact h
  | delivered htook | refused htook => exact base_took h htook (hf _ htook.next)

/-- A handler ends. A frame is held back only with notifications enabled and no chain available. -/
theorem inv_left (h : s.Inv) {event : RxEvent} {m : M} (hpc : s.worker.pc = .leaving event)
    (hn : s.worker.Notified (event == .queue) m) (hc : s.Careful (.worker .notify)) :
    Inv { s with worker := { s.worker with mem := m, pc := .idle }, kick, readable, inbox } := by
  obtain ⟨hset, hlayout, hout⟩ := hn
  have hrings : s.worker.queue.RingsMapped s.worker.mem := h.notify.rings
  have hbase := h.notify.toNotifyBase.write hlayout (hout.sameOn h.notify.apart)
  by_cases hd : s.worker.hasDeferredFrame = true
  · obtain ⟨hidx, hsocket⟩ := hc event (by rw [hpc]; rfl) hd
    have hpub : s.published = s.worker.popped := h.notify.idx_eq_iff.mp hidx
    refine ⟨{ hbase with
      pending := ?_, armed := fun _ => ?_, heard := fun _ hlt => absurd hpub hlt.ne' }, h.short⟩
    · rw [notify]
      show (if RxPc.idle = .idle ∧ s.worker.hasDeferredFrame = true then _ else _) = _ → _
      rw [if_pos ⟨rfl, hd⟩]
      nofun
    · show Armed s.worker.queue m
      cases event with
      | queue => exact Queue.setNotification_armed hrings hset
      | socket =>
        -- with `EVENT_IDX`, disabling writes nothing
        obtain ⟨hevent, harmed⟩ := hsocket rfl
        unfold Queue.setNotification at hset
        rw [hevent] at hset
        cases hset
        unfold Armed
        rw [hevent, if_pos rfl]
        exact harmed
  · exact inv_of_base { hbase with } h.short fun hidle => hd hidle.2

theorem Inv.worker (h : s.Inv) (hm : s.worker.Move e w) (hf : s.Follows (.worker e))
    (hc : s.Careful (.worker e)) (he : ∀ a bs, e ≠ .guest a bs) :
    Inv { s with worker := w, kick, readable, inbox } := by
  have hbase := h.notify.toNotifyBase
  cases hm with
  | kicked | woken | gaveUp | heldBack | drained =>
    exact inv_of_base { hbase with } h.short (nomatch ·.1)
  | entered hpc hn =>
    obtain ⟨-, hlayout, hout⟩ := hn
    have hwrite := hbase.write hlayout (hout.sameOn hbase.apart)
    unfold RxWorker.processRx
    split_ifs
    all_goals exact inv_of_base { hwrite with } h.short (nomatch ·.1)
  | left hpc hn => exact inv_left h hpc hn hc
  | retried hpc ha | retryFailed hpc ha | wrote hpc ha | writeFailed hpc ha =>
    refine inv_of_base { base_attempt hbase ha fun head hh => (hf head hh).2 with } ?_ (nomatch ·.1)
    cases ha <;> exact h.short
  | received hpc hle =>
    refine inv_of_base { hbase with } ?_ (nomatch ·.1)
    show (virtioNetHdr ++ _).length ≤ maxBufferSize
    rw [List.length_append, virtioNetHdr, List.length_replicate]
    exact hle
  | @guest addr bs => exact absurd rfl (he addr bs)

theorem Inv.mapped (hempty : EmptyWritesByLayout M) (h : s.Inv)
    (hs : (s.worker.step e).map (fun w => { s with worker := w, kick, readable, inbox }) = some t)
    (hf : s.Follows (.worker e)) (hc : s.Careful (.worker e)) (he : ∀ a bs, e ≠ .guest a bs) :
    t.Inv := by
  obtain ⟨w, hstep, rfl⟩ := map_eq_some_iff.mp hs
  have hsup : e = .write → s.worker.Supplied := by
    rintro rfl head hh
    exact (hf head hh).1
  exact h.worker (RxWorker.move_of_step hempty h.notify.rings h.short hsup hstep) hf hc he

theorem Inv.step (hempty : EmptyWritesByLayout M) (h : s.Inv) {e : RxSystemStep}
    (hc : s.Follows e ∧ s.Careful e) (hs : s.step e = some t) : t.Inv := by
  obtain ⟨hf, hcare⟩ := hc
  cases e with
  | publish addr bs k =>
    cases hs
    obtain ⟨hused, hidx, hroom, hbatch⟩ := hf
    refine h.driver (.write (s := s.notify) k (writeSlice s.worker.mem addr bs).1 ?_ ?_ hidx hroom
      hbatch) rfl
    · exact LawfulGuestMemory.writeSlice_find s.worker.mem addr bs
    · exact (writeSlice_sameOutside s.worker.mem addr bs).sameOn hused
  | check =>
    cases hs
    exact h.driver .check rfl
  | kick =>
    cases hs
    exact h.driver .kick rfl
  | arrive frame =>
    cases hs
    exact ⟨h.notify, h.short⟩
  | worker e =>
    cases e with
    | queueEvent | socketEvent =>
      obtain ⟨-, hs⟩ := ite_none_right_eq_some.mp hs
      exact h.mapped hempty hs hf hcare nofun
    | notify | write => exact h.mapped hempty hs hf hcare nofun
    | guest addr bs => cases hs
    | read answer =>
      cases answer with
      | ok frame =>
        simp only [RxSystem.step] at hs
        split at hs
        · obtain ⟨-, hs⟩ := ite_none_right_eq_some.mp hs
          exact h.mapped hempty hs hf hcare nofun
        · cases hs
      | nothingRead =>
        obtain ⟨-, hs⟩ := ite_none_right_eq_some.mp hs
        exact h.mapped hempty hs hf hcare nofun
      | internal => exact h.mapped hempty hs hf hcare nofun

end Steps

/-- The worker has not done anything yet, and nothing has happened. -/
def start (q : Queue) (m : M) : RxSystem M where
  worker := .new q m
  kick := false
  readable := false
  inbox := []
  published := 0
  checked := 0
  decided := false

theorem start_inv {q : Queue} {m : M} (h : NotifyStart q m) : (start q m).Inv :=
  inv_of_base ⟨h.rings, h.apart, h.availIdx, h.nextAvail, le_refl 0, Nat.zero_le _, le_refl 0,
    Nat.two_pow_pos 16⟩ (Nat.zero_le _) fun hidle => nomatch hidle.2

/-- A state of the invariant in which the driver is at rest has no chain for a frame held back. -/
theorem Inv.not_stuck [LawfulGuestMemory M] {s : RxSystem M} (h : s.Inv) : ¬ s.Stuck := by
  intro hstuck
  have hpc : s.notify.pc = .idle := if_pos ⟨hstuck.idle, hstuck.held⟩
  obtain ⟨head, hnext, -⟩ := hstuck.chain
  have hlt := popped_lt_of_next h.notify.toNotifyBase hnext
  obtain ⟨hchecked, hdecided⟩ := hstuck.atRest
  rcases h.notify.heard hpc hlt with hk | hd | hle
  · exact Bool.false_ne_true (hstuck.noKick.symm.trans hk)
  · exact Bool.false_ne_true (hdecided.symm.trans hd)
  · exact absurd hlt (not_lt_of_ge (hchecked.symm.le.trans hle))

/-- The worker never sleeps on a frame that is held back and could be delivered, if at the end of
every handler that holds one back no chain is available and notifications are enabled. -/
theorem no_frame_stuck [LawfulGuestMemory M] (hempty : EmptyWritesByLayout M) {q : Queue} {m : M}
    (h0 : NotifyStart q m) {s : RxSystem M} {es : List RxSystemStep}
    (hc : Along step (fun s e => s.Follows e ∧ s.Careful e) (start q m) es)
    (hr : run step (start q m) es = some s) : ¬ s.Stuck := by
  refine Inv.not_stuck (along_invariant (fun s e s' h hc hs => ?_) (start_inv h0) hc hr)
  exact h.step hempty hc hs

def eventQueue : Queue := { smallQueue with eventIdxEnabled := true }

def twoBuffers : FlatMemory :=
  (smallMemory.put 0 (Descriptor.toBytes ⟨0x100, 16, 2, 0⟩)).put 16
    (Descriptor.toBytes ⟨0x110, 8, 2, 0⟩)

theorem twoBuffers_notifyStart : NotifyStart eventQueue twoBuffers :=
  ⟨by decide, smallQueue_apart, by decide, by decide, by decide, by decide⟩

def holdBack : List RxSystemStep :=
  [.arrive [7, 8], .worker .socketEvent, .worker .notify, .worker (.read (.ok [7, 8])),
    .worker .write, .worker .write, .worker .write, .worker .write, .worker .write, .worker .notify]

theorem no_frame_stuck_kicked : let es := holdBack ++ [.publish 0x82 [1, 0] 1, .check, .kick]
    Along step (fun s e => s.Follows e ∧ s.Careful e) (start eventQueue twoBuffers) es ∧
      ∃ s, run step (start eventQueue twoBuffers) es = some s ∧ ¬ s.Stuck ∧ s.kick = true := by
  have hc : Along step (fun s e => s.Follows e ∧ s.Careful e) (start eventQueue twoBuffers)
      (holdBack ++ [.publish 0x82 [1, 0] 1, .check, .kick]) := by decide +kernel
  obtain ⟨s, hs, hkick⟩ : ∃ s, run step (start eventQueue twoBuffers)
      (holdBack ++ [.publish 0x82 [1, 0] 1, .check, .kick]) = some s ∧ s.kick = true := by
    decide +kernel
  exact ⟨hc, s, hs, no_frame_stuck RxWorker.emptyWrites_flatMemory twoBuffers_notifyStart hc hs,
    hkick⟩

/-- The handler of the socket has disabled notifications when the chain is published. -/
def publishedUnheard : List RxSystemStep := holdBack ++ [.publish 0x82 [1, 0] 1, .check]

/-- The handler of the socket takes a chain after it has enabled notifications, and holds the next
frame back. -/
def takenSinceEnabled : List RxSystemStep :=
  [.publish 0x82 [1, 0] 1, .check, .kick, .worker .queueEvent, .worker .notify,
    .worker (.read .nothingRead), .worker .notify, .arrive [7, 8], .arrive [9],
    .worker .socketEvent, .worker .notify, .worker (.read (.ok [7, 8])), .worker .write,
    .worker (.read (.ok [9])), .worker .write, .worker .write, .worker .write, .worker .write,
    .worker .write, .worker .notify, .publish 0x82 [2, 0] 1, .check]

/-- A chain that is too small is used up; the next one is published before the handler of the queue
enables notifications. -/
def publishedBeforeEnabled : List RxSystemStep :=
  holdBack ++ [.publish 0x84 [1, 0, 0, 0] 0, .publish 0x82 [1, 0] 1, .check, .kick,
    .worker .queueEvent, .worker .notify, .worker .write, .worker .write, .worker .write,
    .worker .write, .worker .write, .publish 0x82 [2, 0] 1, .check, .worker .notify]

theorem frames_stuck :
    (Along step Follows (start smallQueue twoBuffers) publishedUnheard ∧
      ∃ s ∈ run step (start smallQueue twoBuffers) publishedUnheard, s.Stuck) ∧
    (Along step Follows (start eventQueue twoBuffers) takenSinceEnabled ∧
      ∃ s ∈ run step (start eventQueue twoBuffers) takenSinceEnabled, s.Stuck) ∧
    (Along step Follows (start eventQueue twoBuffers) publishedBeforeEnabled ∧
      ∃ s ∈ run step (start eventQueue twoBuffers) publishedBeforeEnabled, s.Stuck) := by
  refine ⟨⟨?_, ?_⟩, ⟨?_, ?_⟩, ⟨?_, ?_⟩⟩ <;> decide +kernel

end RxSystem

end Shelter.Net
