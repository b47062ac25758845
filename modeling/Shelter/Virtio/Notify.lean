import Mathlib.Logic.Relation
import Shelter.Lib.Ring
import Shelter.Virtio.Queue

/-!
# Kicks and wake-ups

A worker sleeps until the driver kicks it, then runs its loop: disable notifications, pop and
process until the ring is empty, enable notifications, look at the ring once more. A driver
stores ring entries and the index, then reads what the worker wrote to enable notifications, and
kicks if it has to. Both run concurrently; `WorkerStep` and `DriverStep` are their accesses of
the shared memory, one at a time.

`no_lost_wakeup`: a worker that sleeps while a chain waits has a kick pending, or the driver has
not finished its check and will kick. It holds for a queue with `EVENT_IDX` and without.
-/

open Bytes Ring

namespace Shelter.Virtio

open Queue

variable {M : Type} [GuestMemory M]

/-- Where the worker stands: asleep on its event, or before the next access of its loop. -/
inductive WorkerPc
  | idle
  | disable
  | popLen
  | popEntry
  | processing
  | enableStore
  | recheck
  deriving DecidableEq, Repr

structure NotifyState (M : Type) where
  queue : Queue
  mem : M
  pc : WorkerPc
  /-- the worker's event is signalled -/
  kick : Bool
  /-- how many chains the driver has published -/
  published : ℕ
  /-- how many chains the worker has popped -/
  popped : ℕ
  /-- how many were published when the driver last checked whether to kick -/
  checked : ℕ
  /-- the driver found that it has to kick and has not done so yet -/
  decided : Bool

variable (q : Queue)

namespace Queue

/-- The `flags` field of the used ring. -/
def usedFlagsField (m : M) : U16 := field16 m q.usedRing.toNat

def availEventField (m : M) : U16 :=
  field16 m (q.usedRing.toNat + (4 + 8 * q.size.toNat))

end Queue

/-- The driver's test with `EVENT_IDX`: has its index passed the event since it last looked? -/
def vringNeedEvent (event new old : U16) : Bool := decide (new - event - 1 < new - old)

namespace NotifyState

def start (m : M) : NotifyState M := ⟨q, m, .idle, false, 0, 0, 0, false⟩

def kickRequired (s : NotifyState M) : Bool :=
  if s.queue.eventIdxEnabled then
    vringNeedEvent (s.queue.availEventField s.mem) (BitVec.ofNat 16 s.published)
      (BitVec.ofNat 16 s.checked)
  else s.queue.usedFlagsField s.mem &&& vringUsedFNoNotify == 0

/-- The driver has published nothing since its last check, and has done what that asked for. -/
def DriverAtRest (s : NotifyState M) : Prop := s.checked = s.published ∧ s.decided = false

end NotifyState

/-- One access of the driver. It may write anywhere but in the used ring; the index it stores
never counts more than `size` chains that have not been popped, nor 2^16 chains since the last
check. -/
inductive DriverStep : NotifyState M → NotifyState M → Prop
  | write {s : NotifyState M} (k : ℕ) (m' : M) :
    SameLayout s.mem m' →
    SameOn s.queue.usedRing.toNat (6 + 8 * s.queue.size.toNat) s.mem m' →
    s.queue.availIdxField m' = BitVec.ofNat 16 (s.published + k) →
    s.published + k ≤ s.popped + s.queue.size.toNat →
    s.published + k - s.checked < 2 ^ 16 →
    DriverStep s { s with mem := m', published := s.published + k }
  | check {s : NotifyState M} :
    DriverStep s { s with checked := s.published, decided := s.decided || s.kickRequired }
  | kick {s : NotifyState M} : DriverStep s { s with kick := true, decided := false }

/-- One access of the worker. While it processes a chain it may write to buffers outside the
rings, put chains in the used ring and look whether to interrupt the driver. -/
inductive WorkerStep : NotifyState M → NotifyState M → Prop
  | wake {s : NotifyState M} : s.pc = .idle → s.kick = true →
    WorkerStep s { s with kick := false, pc := .disable }
  | disable {s : NotifyState M} (m' : M) : s.pc = .disable →
    s.queue.disableNotification s.mem = .ok m' →
    WorkerStep s { s with mem := m', pc := .popLen }
  | lenZero {s : NotifyState M} (n : U16) : s.pc = .popLen → s.queue.len s.mem = some n →
    n = 0 ∨ s.queue.actualSize = 0 →
    WorkerStep s { s with pc := .enableStore }
  | lenPos {s : NotifyState M} (n : U16) : s.pc = .popLen → s.queue.len s.mem = some n →
    ¬ (n = 0 ∨ s.queue.actualSize = 0) →
    WorkerStep s { s with pc := .popEntry }
  | entry {s : NotifyState M} (c : DescriptorChain) (q' : Queue) : s.pc = .popEntry →
    s.queue.popEntry s.mem = some (some c, q') →
    WorkerStep s { s with queue := q', popped := s.popped + 1, pc := .processing }
  | entryRejected {s : NotifyState M} (q' : Queue) : s.pc = .popEntry →
    s.queue.popEntry s.mem = some (none, q') →
    WorkerStep s { s with queue := q', pc := .enableStore }
  | write {s : NotifyState M} (m' : M) : s.pc = .processing → SameLayout s.mem m' →
    SameOn s.queue.availRing.toNat (6 + 2 * s.queue.size.toNat) s.mem m' →
    SameOn s.queue.usedRing.toNat (6 + 8 * s.queue.size.toNat) s.mem m' →
    WorkerStep s { s with mem := m' }
  | addUsed {s : NotifyState M} (id : U16) (len : U32) : s.pc = .processing →
    WorkerStep s { s with
      queue := (s.queue.addUsed s.mem id len).2.1, mem := (s.queue.addUsed s.mem id len).2.2 }
  | needsNotification {s : NotifyState M} (b : Bool) (q' : Queue) : s.pc = .processing →
    s.queue.needsNotification s.mem = .ok (b, q') →
    WorkerStep s { s with queue := q' }
  | next {s : NotifyState M} : s.pc = .processing → WorkerStep s { s with pc := .popLen }
  | enable {s : NotifyState M} (m' : M) : s.pc = .enableStore →
    s.queue.setNotification s.mem true = .ok m' →
    WorkerStep s { s with mem := m', pc := .recheck }
  | again {s : NotifyState M} : s.pc = .recheck → s.queue.moreAvailable s.mem = .ok true →
    WorkerStep s { s with pc := .disable }
  | leave {s : NotifyState M} : s.pc = .recheck → s.queue.moreAvailable s.mem = .ok false →
    WorkerStep s { s with pc := .idle }

def NotifyStep (s s' : NotifyState M) : Prop := DriverStep s s' ∨ WorkerStep s s'

/-- What the worker starts with: rings in mapped memory that do not overlap, all counters and the
fields of the used ring zero. -/
structure NotifyStart (q : Queue) (m : M) : Prop where
  rings : q.RingsMapped m
  apart : Apart q.usedRing.toNat (6 + 8 * q.size.toNat) q.availRing.toNat (6 + 2 * q.size.toNat)
  nextAvail : q.nextAvail = 0
  availIdx : q.availIdxField m = 0
  usedFlags : q.usedFlagsField m = 0
  availEvent : q.availEventField m = 0

def NotifyReachable (m : M) (s : NotifyState M) : Prop :=
  Relation.ReflTransGen NotifyStep (NotifyState.start q m) s

/-! ## The invariant -/

/-- The counters against the memory, wherever the worker stands. -/
structure NotifyBase (s : NotifyState M) : Prop where
  rings : s.queue.RingsMapped s.mem
  apart : Apart s.queue.usedRing.toNat (6 + 8 * s.queue.size.toNat) s.queue.availRing.toNat
    (6 + 2 * s.queue.size.toNat)
  availIdx : s.queue.availIdxField s.mem = BitVec.ofNat 16 s.published
  nextAvail : s.queue.nextAvail = BitVec.ofNat 16 s.popped
  popped_le : s.popped ≤ s.published
  room : s.published ≤ s.popped + s.queue.size.toNat
  checked_le : s.checked ≤ s.published
  batch : s.published - s.checked < 2 ^ 16

def Armed (m : M) : Prop :=
  if q.eventIdxEnabled then q.availEventField m = q.nextAvail else q.usedFlagsField m = 0

/-- A sleeping worker that has a chain to pop will hear of it: a kick is pending or decided on,
or the driver has not checked since before that chain. -/
structure NotifyInv (s : NotifyState M) : Prop extends NotifyBase s where
  pending : s.pc = .popEntry → s.popped < s.published ∧ s.queue.actualSize ≠ 0
  armed : s.pc = .idle ∨ s.pc = .recheck → Armed s.queue s.mem
  heard : s.pc = .idle → s.popped < s.published →
    s.kick = true ∨ s.decided = true ∨ s.checked ≤ s.popped

theorem notifyInv_start {q : Queue} {m : M} (h : NotifyStart q m) :
    NotifyInv (NotifyState.start q m) where
  __ := h
  popped_le := le_refl 0
  room := Nat.zero_le _
  checked_le := le_refl 0
  batch := by show 0 - 0 < 2 ^ 16; omega
  pending := by simp [NotifyState.start]
  armed := by
    intro _
    show Armed q m
    unfold Armed
    split_ifs
    · rw [h.availEvent, h.nextAvail]
    · exact h.usedFlags
  heard := fun _ hlt => absurd hlt (Nat.lt_irrefl 0)

section Base

variable {s : NotifyState M}

theorem NotifyBase.busy (h : NotifyBase s)
    (hp : s.pc = .disable ∨ s.pc = .popLen ∨ s.pc = .processing ∨ s.pc = .enableStore) :
    NotifyInv s where
  toNotifyBase := h
  pending := by intro he; simp [he] at hp
  armed := by rintro (he | he) <;> simp [he] at hp
  heard := by intro he; simp [he] at hp

theorem NotifyBase.idx_eq_iff (h : NotifyBase s) :
    s.queue.availIdxField s.mem = s.queue.nextAvail ↔ s.published = s.popped := by
  have h1 := h.room
  rw [h.availIdx, h.nextAvail]
  exact ofNat_eq_iff h.popped_le (by omega)

theorem NotifyBase.popped_lt (h : NotifyBase s)
    (hne : s.queue.availIdxField s.mem ≠ s.queue.nextAvail) : s.popped < s.published :=
  lt_of_le_of_ne h.popped_le fun heq => hne (h.idx_eq_iff.mpr heq.symm)

theorem NotifyBase.goto (h : NotifyBase s) (p : WorkerPc) : NotifyBase { s with pc := p } :=
  { h with }

theorem NotifyBase.pop (h : NotifyBase s) (hlt : s.popped < s.published) :
    NotifyBase { s with
      queue := { s.queue with nextAvail := s.queue.nextAvail + 1 }
      popped := s.popped + 1 } where
  __ := h
  rings := h.rings.congr (.withNextAvail _ _) (.refl _)
  nextAvail := by
    show s.queue.nextAvail + 1 = BitVec.ofNat 16 (s.popped + 1)
    rw [h.nextAvail]
    bv_omega
  popped_le := hlt
  room := h.room.trans (Nat.add_le_add_right (Nat.le_succ _) _)

theorem NotifyBase.write (h : NotifyBase s) {m' : M} (hl : SameLayout s.mem m')
    (ha : SameOn s.queue.availRing.toNat (6 + 2 * s.queue.size.toNat) s.mem m') :
    NotifyBase { s with mem := m' } where
  __ := h
  rings := h.rings.congr (.refl _) hl
  availIdx := (availIdxField_congr rfl ha).trans h.availIdx

theorem NotifyBase.requeue (h : NotifyBase s) {q' : Queue} (hq : Queue.SameConfig s.queue q')
    (hn : q'.nextAvail = s.queue.nextAvail) : NotifyBase { s with queue := q' } where
  __ := h
  rings := h.rings.congr hq (SameLayout.refl _)
  apart := by
    show Apart q'.usedRing.toNat (6 + 8 * q'.size.toNat) q'.availRing.toNat
      (6 + 2 * q'.size.toNat)
    rw [hq.usedRing, hq.size, hq.availRing]
    exact h.apart
  availIdx := by
    show field16 s.mem (q'.availRing.toNat + 2) = _
    rw [hq.availRing]
    exact h.availIdx
  nextAvail := hn.trans h.nextAvail
  room := by
    show s.published ≤ s.popped + q'.size.toNat
    rw [hq.size]
    exact h.room

end Base

/-! ## The steps of the driver -/

section Driver

variable {s : NotifyState M}

theorem Armed.congr {q : Queue} {m m' : M} (h : Armed q m)
    (hu : SameOn q.usedRing.toNat (6 + 8 * q.size.toNat) m m') : Armed q m' := by
  unfold Armed at *
  have hf : q.usedFlagsField m' = q.usedFlagsField m :=
    field16_congr (hu.mono (by omega) (by omega))
  have he : q.availEventField m' = q.availEventField m :=
    field16_congr (hu.mono (by omega) (by omega))
  rw [hf, he]
  exact h

/-- If notifications were enabled at a chain that the driver published after its last check, the
check finds that it has to kick. -/
theorem NotifyBase.kickRequired (h : NotifyBase s) (ha : Armed s.queue s.mem)
    (hlt : s.popped < s.published) (hc : s.checked ≤ s.popped) : s.kickRequired = true := by
  unfold NotifyState.kickRequired
  unfold Armed at ha
  split_ifs at ha ⊢ with he
  · -- the event lies between the index at the last check and the index now
    have hb := h.batch
    have h1 : (BitVec.ofNat 16 s.published - BitVec.ofNat 16 s.popped : U16).toNat =
        s.published - s.popped := toNat_ofNat_sub hlt.le (by omega)
    have h2 : (BitVec.ofNat 16 s.published - BitVec.ofNat 16 s.checked : U16).toNat =
        s.published - s.checked := toNat_ofNat_sub h.checked_le hb
    unfold vringNeedEvent
    rw [ha, h.nextAvail, decide_eq_true_eq]
    generalize (BitVec.ofNat 16 s.published - BitVec.ofNat 16 s.popped : U16) = x at *
    generalize (BitVec.ofNat 16 s.published - BitVec.ofNat 16 s.checked : U16) = y at *
    bv_omega
  · rw [ha]
    rfl

theorem notifyInv_driver {s' : NotifyState M} (h : NotifyInv s) (hs : DriverStep s s') :
    NotifyInv s' := by
  cases hs with
  | write k m' hl hu hidx hroom hbatch =>
    have hle := h.popped_le
    have hck := h.checked_le
    refine { h with
      rings := h.rings.congr (.refl _) hl, availIdx := hidx, room := hroom, batch := hbatch
      popped_le := hle.trans (Nat.le_add_right _ k), checked_le := hck.trans (Nat.le_add_right _ k)
      pending := ?_, armed := fun hp => (h.armed hp).congr hu, heard := ?_ }
    · intro hp
      obtain ⟨hlt, h0⟩ := h.pending hp
      exact ⟨Nat.lt_add_right k hlt, h0⟩
    · intro hp _
      show s.kick = true ∨ s.decided = true ∨ s.checked ≤ s.popped
      rcases Nat.lt_or_ge s.popped s.published with hlt | hge
      · exact h.heard hp hlt
      · exact .inr (.inr (by omega))
  | check =>
    refine { h with checked_le := le_refl _, batch := ?_, heard := fun hp hlt => ?_ }
    · show s.published - s.published < 2 ^ 16
      omega
    rcases h.heard hp hlt with hk | hd | hc
    · exact .inl hk
    · refine .inr (.inl ?_)
      show (s.decided || s.kickRequired) = true
      rw [hd, Bool.true_or]
    · refine .inr (.inl ?_)
      show (s.decided || s.kickRequired) = true
      rw [h.kickRequired (h.armed (.inl hp)) hlt hc, Bool.or_true]
  | kick => exact { h with heard := fun _ _ => .inl rfl }

end Driver

/-! ## The steps of the worker -/

section Worker

variable [LawfulGuestMemory M] {s : NotifyState M}

theorem Queue.setNotification_armed {q : Queue} {m m' : M} (h : q.RingsMapped m)
    (hs : q.setNotification m true = .ok m') : Armed q m' := by
  unfold setNotification at hs
  unfold Armed
  cases he : q.eventIdxEnabled with
  | true =>
    obtain ⟨m₁, hm, hw⟩ := setAvailEvent_ok h q.nextAvail
    rw [he, if_pos rfl, if_pos rfl, hm] at hs
    cases hs
    simpa [availEventField] using hw.field16_eq
  | false =>
    obtain ⟨m₁, hm, hw⟩ := setUsedFlags_ok h 0
    rw [he, if_pos rfl, if_neg (by simp), hm] at hs
    cases hs
    simpa [usedFlagsField] using hw.field16_eq

theorem notifyInv_addUsed (h : NotifyInv s) (hp : s.pc = .processing) (id : U16) (len : U32) :
    NotifyInv { s with
      queue := (s.queue.addUsed s.mem id len).2.1, mem := (s.queue.addUsed s.mem id len).2.2 } := by
  obtain ⟨hl, hq, ho⟩ := addUsed_frame h.rings id len
  have hb := h.toNotifyBase.write hl (ho.sameOn h.apart)
  refine NotifyBase.busy ?_ (.inr (.inr (.inl hp)))
  rcases hq with hq | hq
  · rw [hq]
    exact hb
  · rw [hq]
    exact hb.requeue (.bumpUsed _) rfl

omit [LawfulGuestMemory M] in
theorem popEntry_cases {c : Option DescriptorChain} {q' : Queue}
    (he : s.queue.popEntry s.mem = some (c, q')) :
    (∃ d, c = some d ∧ q' = { s.queue with nextAvail := s.queue.nextAvail + 1 }) ∨
      c = none ∧ q' = s.queue := by
  obtain ⟨hd, hr⟩ := popEntry_some he
  obtain ⟨d, _, _, hc⟩ | ⟨_, hc⟩ := s.queue.popAt_cases s.mem hd
  · cases hr.trans hc
    exact .inl ⟨d, rfl, rfl⟩
  · cases hr.trans hc
    exact .inr ⟨rfl, rfl⟩

theorem notifyInv_worker {s' : NotifyState M} (h : NotifyInv s) (hs : WorkerStep s s') :
    NotifyInv s' := by
  cases hs with
  | wake _ _ => exact NotifyBase.busy { h.toNotifyBase with } (.inl rfl)
  | disable m' _ hd =>
    obtain ⟨m₁, hm₁, hl, ho⟩ := setNotification_ok h.rings false
    obtain rfl : m₁ = m' := Except.ok.inj (hm₁.symm.trans hd)
    exact ((h.write hl (ho.sameOn h.apart)).goto .popLen).busy (.inr (.inl rfl))
  | lenZero n _ _ _ => exact (h.goto .enableStore).busy (.inr (.inr (.inr rfl)))
  | lenPos n _ hn hpos =>
    refine ⟨h.goto .popEntry, fun _ => ?_, by simp, by simp⟩
    rw [len_eq h.rings, Option.some.injEq] at hn
    have hne : s.queue.availIdxField s.mem ≠ s.queue.nextAvail := by
      intro he
      exact hpos (.inl (by rw [← hn, he, BitVec.sub_self]; rfl))
    exact ⟨h.popped_lt hne, fun h0 => hpos (.inr h0)⟩
  | entry c q' hp he =>
    obtain ⟨_, _, rfl⟩ | ⟨⟨⟩, -⟩ := popEntry_cases he
    · exact ((h.toNotifyBase.pop (h.pending hp).1).goto .processing).busy (.inr (.inr (.inl rfl)))
  | entryRejected q' _ he =>
    obtain ⟨_, ⟨⟩, -⟩ | ⟨-, rfl⟩ := popEntry_cases he
    · exact (h.goto .enableStore).busy (.inr (.inr (.inr rfl)))
  | write m' hp hl ha _ => exact (h.write hl ha).busy (.inr (.inr (.inl hp)))
  | addUsed id len hp => exact notifyInv_addUsed h hp id len
  | needsNotification b q' hp hn =>
    obtain ⟨hq, hna⟩ := needsNotification_config hn
    exact (h.requeue hq hna).busy (.inr (.inr (.inl hp)))
  | next _ => exact (h.goto .popLen).busy (.inr (.inl rfl))
  | enable m' _ he =>
    obtain ⟨m₁, hm₁, hl, ho⟩ := setNotification_ok h.rings true
    obtain rfl : m₁ = m' := Except.ok.inj (hm₁.symm.trans he)
    exact ⟨(h.write hl (ho.sameOn h.apart)).goto .recheck, by simp,
      fun _ => setNotification_armed h.rings he, by simp⟩
  | again _ _ => exact (h.goto .disable).busy (.inl rfl)
  | leave hp hm =>
    -- the index read after the store is where the worker stopped: nothing is waiting
    rw [moreAvailable_eq h.rings, Except.ok.injEq, bne_eq_false_iff_eq] at hm
    have hpub := h.idx_eq_iff.mp hm
    refine ⟨h.goto .idle, by simp, fun _ => h.armed (.inr hp), fun _ hlt => ?_⟩
    have hlt : s.popped < s.published := hlt
    omega

theorem notifyInv_of_reachable {q : Queue} {m : M} (h0 : NotifyStart q m)
    (h : NotifyReachable q m s) : NotifyInv s := by
  induction h with
  | refl => exact notifyInv_start h0
  | tail _ hs ih =>
    rcases hs with hs | hs
    · exact notifyInv_driver ih hs
    · exact notifyInv_worker ih hs

/-- A worker that is awake, or has a kick pending, does not get stuck: none of the results its
loop unwraps is an error. -/
theorem NotifyInv.progress (h : NotifyInv s) (ha : s.pc ≠ .idle ∨ s.kick = true) :
    ∃ s', WorkerStep s s' := by
  cases hp : s.pc with
  | idle => exact ⟨_, .wake hp (ha.resolve_left fun hne => hne hp)⟩
  | disable =>
    obtain ⟨m', hm, _⟩ := setNotification_ok h.rings false
    exact ⟨_, .disable m' hp hm⟩
  | popLen =>
    have hlen := len_eq h.rings
    by_cases hz : s.queue.availIdxField s.mem - s.queue.nextAvail = 0 ∨ s.queue.actualSize = 0
    · exact ⟨_, .lenZero _ hp hlen hz⟩
    · exact ⟨_, .lenPos _ hp hlen hz⟩
  | popEntry =>
    have hent := popEntry_eq h.rings (h.pending hp).2
    obtain ⟨c, _, _, hc⟩ | ⟨_, hc⟩ := s.queue.popAt_cases s.mem (s.queue.headAt s.mem)
    · exact ⟨_, .entry c _ hp (hent.trans (congrArg some hc))⟩
    · exact ⟨_, .entryRejected _ hp (hent.trans (congrArg some hc))⟩
  | processing => exact ⟨_, .next hp⟩
  | enableStore =>
    obtain ⟨m', hm, _⟩ := setNotification_ok h.rings true
    exact ⟨_, .enable m' hp hm⟩
  | recheck =>
    have hmore := moreAvailable_eq h.rings
    cases hb : s.queue.availIdxField s.mem != s.queue.nextAvail with
    | true => exact ⟨_, .again hp (hb ▸ hmore)⟩
    | false => exact ⟨_, .leave hp (hb ▸ hmore)⟩

/-- **No lost wake-up.** In every reachable state in which the worker sleeps and a published
chain has not been popped, a kick is pending if the driver is at rest. If it is not, it has
decided to kick, or its check is still to come and finds that it has to. A worker that is awake
or has a kick pending can always go on. -/
theorem no_lost_wakeup {q : Queue} {m : M} (h0 : NotifyStart q m) (h : NotifyReachable q m s) :
    (s.pc = .idle → s.popped < s.published → s.DriverAtRest → s.kick = true) ∧
      (s.pc = .idle → s.popped < s.published →
        s.kick = true ∨ s.decided = true ∨ s.checked < s.published ∧ s.kickRequired = true) ∧
      (s.pc ≠ .idle ∨ s.kick = true → ∃ s', WorkerStep s s') := by
  have hi := notifyInv_of_reachable h0 h
  refine ⟨?_, ?_, hi.progress⟩
  · intro hp hlt hrest
    rcases hi.heard hp hlt with hk | hd | hc
    · exact hk
    · exact absurd hd (by simp [hrest.2])
    · have := hrest.1
      omega
  · intro hp hlt
    rcases hi.heard hp hlt with hk | hd | hc
    · exact .inl hk
    · exact .inr (.inl hd)
    · exact .inr (.inr ⟨by omega, hi.kickRequired (hi.armed (.inl hp)) hlt hc⟩)

end Worker

def smallIndexStored : NotifyState FlatMemory :=
  { NotifyState.start smallQueue smallMemory with
    mem := smallMemory.put 0x82 (leBytes 2 1 ++ leBytes 2 3), published := 1 }

theorem smallQueue_notifyStart : NotifyStart smallQueue smallMemory :=
  ⟨smallQueue_rings, smallQueue_apart, by decide, by decide, by decide, by decide⟩

theorem smallIndexStored_reachable : NotifyReachable smallQueue smallMemory smallIndexStored :=
  .single (.inl (.write 1 _ (FlatMemory.sameLayout_put _ _ _)
    (FlatMemory.sameOn_put _ (apart_of_le (by decide))) (by decide) (by decide) (by decide)))

def smallKicked : NotifyState FlatMemory := { smallIndexStored with checked := 1, kick := true }

theorem smallKicked_reachable : NotifyReachable smallQueue smallMemory smallKicked :=
  (smallIndexStored_reachable.tail (.inl .check)).tail (.inl .kick)

theorem no_lost_wakeup_small :
    smallKicked.pc = .idle ∧ smallKicked.popped < smallKicked.published ∧
      smallKicked.DriverAtRest ∧ smallKicked.kick = true ∧ ∃ s', WorkerStep smallKicked s' :=
  have h := no_lost_wakeup smallQueue_notifyStart smallKicked_reachable
  ⟨rfl, by decide, ⟨rfl, rfl⟩, h.1 rfl (by decide) ⟨rfl, rfl⟩, h.2.2 (.inr rfl)⟩

/-- Between the store of the index and the check the worker may sleep with a chain to pop and no
kick pending. -/
theorem sleeping_before_check :
    ∃ (q : Queue) (m : FlatMemory) (s : NotifyState FlatMemory), NotifyStart q m ∧
      NotifyReachable q m s ∧ s.pc = .idle ∧ s.popped < s.published ∧ s.kick = false :=
  ⟨smallQueue, smallMemory, smallIndexStored, smallQueue_notifyStart, smallIndexStored_reachable,
    rfl, by decide, rfl⟩

end Shelter.Virtio
