import Shelter.Console.ProcessRx
import Shelter.Console.TxPort

/-!
# A port that is opened again

`Port::start` gives each of its threads a copy of the queue that the device keeps, and the device's
own copy is never touched: it still has the counters from before the first thread. On a port that is
already active `start` first shuts it down, that is, it waits for the old threads to end.

`Side` is one direction of a port with the ring positions its threads took chains from (`taken`) and
the values they stored in the index of the used ring (`stored`). `consecutive`: over any number of
openings both go up one by one, as long as the threads that end when the port is opened again have
left the counters of their copies where those of the device still are.
-/

open Bytes

namespace Shelter.Console

open Virtio Run List

variable {M : Type} [GuestMemory M]

/-- A thread of a port, with its copy of the queue. -/
structure Thread where
  queue : Queue
  pc : ThreadPc
  deriving DecidableEq, Repr

def Turn.takes : Turn → Bool
  | .used | .rejected | .dropped | .panicked => true
  | .empty | .putBack => false

/-- One direction of a port: the queue of the device, the present thread, and the history of all its
threads. -/
structure Side where
  device : Queue
  thread : Option Thread
  taken : List U16
  stored : List U16
  deriving DecidableEq, Repr

namespace Side

/-- `start` makes a thread if the port has an input, or an output. -/
def spawn (s : Side) (present : Bool) : Side :=
  { s with thread := if present then some ⟨s.device, .running⟩ else none }

def turned (s : Side) (t : Thread) (turn : Turn) (q : Queue) (pc : ThreadPc) : Side :=
  { s with
    thread := some ⟨q, pc⟩
    taken := s.taken ++ if turn.takes then [t.queue.nextAvail] else []
    stored := s.stored ++ if turn = .used then [q.nextUsed] else [] }

def goto (s : Side) (t : Thread) (pc : ThreadPc) : Side := { s with thread := some ⟨t.queue, pc⟩ }

def ended (s : Side) : Bool :=
  match s.thread with
  | none => true
  | some t => t.pc == .exited || t.pc == .panicked

end Side

structure Port (M : Type) where
  mem : M
  hasInput : Bool
  hasOutput : Bool
  rx : Side
  tx : Side
  stop : Bool
  /-- `start` waits for the old threads. -/
  opening : Bool
  /-- A thread panicked while it held the lock of the output. -/
  poisoned : Bool
  sent : List Byte
  signals : ℕ

/-- The device opens the port, or goes on when the old threads have ended; a thread takes a turn, is
unparked, or looks at the `stop` flag; the guest writes. -/
inductive PortStep
  | start
  | joined
  | rxTurn (answers : List InputAnswer)
  | rxUnpark
  | rxCheck
  | txTurn (answers : List Answer)
  | txUnpark
  | guest (addr : ℕ) (bs : List Byte)
  deriving DecidableEq, Repr

/-- Where the receive thread is after a turn. It looks at the `stop` flag after a turn with a chain,
not when it is unparked. -/
def rxPc (turn : Turn) (eof : Bool) : ThreadPc :=
  match turn with
  | .empty => .parked
  | .panicked => .panicked
  | .putBack | .used | .rejected | .dropped => if eof then .exited else .checking

namespace Port

def spawn (s : Port M) : Port M :=
  { s with
    rx := s.rx.spawn s.hasInput
    tx := s.tx.spawn s.hasOutput
    stop := false
    opening := false }

/-- A turn of `process_tx`. The lock of the output is taken for each readable descriptor. -/
def takeTx [TryAccess M] (s : Port M) (t : Thread) (answers : List Answer) : Option (TxTurn M) :=
  match t.queue.pop s.mem with
  | some (some head, q) =>
    if s.poisoned && head.isReadOnly then
      some ⟨s.mem, q, .toAnswer s.sent s.signals answers, some head, .panicked⟩
    else processTx s.mem t.queue (.toAnswer s.sent s.signals answers)
  | _ => processTx s.mem t.queue (.toAnswer s.sent s.signals answers)

def step [TryAccess M] (s : Port M) : PortStep → Option (Port M)
  | .start =>
    if s.opening then none
    else if s.rx.thread = none ∧ s.tx.thread = none then some s.spawn
    else some { s with stop := true, opening := true }
  | .joined => if s.opening && s.rx.ended && s.tx.ended then some s.spawn else none
  | .rxTurn answers =>
    match s.rx.thread with
    | some t =>
      if t.pc = .running then
        (processRx s.mem t.queue answers).map fun r =>
          { s with mem := r.mem, rx := s.rx.turned t r.turn r.queue (rxPc r.turn r.eof) }
      else none
    | none => none
  | .rxUnpark =>
    match s.rx.thread with
    | some t => if t.pc = .parked then some { s with rx := s.rx.goto t .running } else none
    | none => none
  | .rxCheck =>
    match s.rx.thread with
    | some t =>
      if t.pc = .checking then
        some { s with rx := s.rx.goto t (if s.stop then .exited else .running) }
      else none
    | none => none
  | .txTurn answers =>
    match s.tx.thread with
    | some t =>
      if t.pc = .running then
        (s.takeTx t answers).map fun r =>
          { s with
            mem := r.mem
            tx := s.tx.turned t r.turn r.queue r.turn.pc
            poisoned := s.poisoned || r.turn == .panicked
            sent := r.output.sent
            signals := r.output.signals }
      else none
    | none => none
  | .txUnpark =>
    match s.tx.thread with
    | some t =>
      if t.pc = .parked then
        some { s with tx := s.tx.goto t (if s.stop then .exited else .running) }
      else none
    | none => none
  | .guest addr bs => some { s with mem := (writeSlice s.mem addr bs).1 }

end Port

/-! ## Rising counters -/

def Consecutive (start : U16) (l : List U16) : Prop :=
  l = (List.range l.length).map fun i => start + BitVec.ofNat 16 i
  deriving Decidable

variable {start x : U16}

theorem Consecutive.snoc {l : List U16} (h : Consecutive start l)
    (hx : x = start + BitVec.ofNat 16 l.length) : Consecutive start (l ++ [x]) := by
  unfold Consecutive at h ⊢
  rw [length_append, length_singleton, range_succ, map_append, ← h, hx]
  rfl

namespace Side

/-- The threads of the side, one after the other, took the chains in the order of the ring and gave
the index of the used ring all values in order. -/
@[mk_iff] structure InOrder (s : Side) : Prop where
  taken : Consecutive s.device.nextAvail s.taken
  stored : Consecutive (s.device.nextUsed + 1) s.stored

instance (s : Side) : Decidable s.InOrder :=
  decidable_of_iff' _ (inOrder_iff ..)

/-- The counters of the thread are those of the device. -/
def Unmoved (s : Side) : Prop :=
  ∀ t ∈ s.thread, t.queue.nextAvail = s.device.nextAvail ∧ t.queue.nextUsed = s.device.nextUsed
  deriving Decidable

/-- The queue that chains are taken from, or the one that the next thread gets. -/
def current (s : Side) : Queue := (s.thread.map (·.queue)).getD s.device

/-- The rings are mapped, and the counters have come as far as the history is long. -/
structure Inv (m : M) (s : Side) : Prop where
  rings : s.device.RingsMapped m
  config : s.device.SameConfig s.current
  avail : s.current.nextAvail = s.device.nextAvail + BitVec.ofNat 16 s.taken.length
  used : s.current.nextUsed = s.device.nextUsed + BitVec.ofNat 16 s.stored.length
  order : s.InOrder

variable {m m' : M} {s : Side} {t : Thread}

theorem current_eq (ht : s.thread = some t) : s.current = t.queue := by
  rw [current, ht]
  rfl

theorem Inv.layout (h : s.Inv m) (hm : SameLayout m m') : s.Inv m' :=
  { h with rings := h.rings.congr (.refl _) hm }

theorem Inv.goto (h : s.Inv m) (ht : s.thread = some t) (pc : ThreadPc) :
    (s.goto t pc).Inv m := by
  have hcurrent : (s.goto t pc).current = s.current := (current_eq ht).symm
  exact ⟨h.rings, hcurrent ▸ h.config, hcurrent ▸ h.avail, hcurrent ▸ h.used,
    ⟨h.order.1, h.order.2⟩⟩

theorem Inv.spawn (h : s.Inv m) (hu : s.Unmoved) (present : Bool) : (s.spawn present).Inv m := by
  have hcurrent : (s.spawn present).current = s.device := by cases present <;> rfl
  have hsame : s.current.nextAvail = s.device.nextAvail ∧
      s.current.nextUsed = s.device.nextUsed := by
    rcases ht : s.thread with _ | t
    · rw [current, ht]
      exact ⟨rfl, rfl⟩
    · rw [current_eq ht]
      exact hu t ht
  refine ⟨h.rings, ?_, ?_, ?_, ⟨h.order.1, h.order.2⟩⟩ <;> rw [hcurrent]
  · exact .refl _
  · exact hsame.1.symm.trans h.avail
  · exact hsame.2.symm.trans h.used

variable {turn : Turn} {q : Queue}

theorem Inv.turned (h : s.Inv m) (ht : s.thread = some t) (hq : TurnSpec m t.queue turn q m')
    (pc : ThreadPc) : (s.turned t turn q pc).Inv m' := by
  obtain ⟨hrings, hconfig, havail, hused, htaken, hstored⟩ := h
  rw [current_eq ht] at hconfig havail hused
  have htake := htaken.snoc havail
  have hstore : Consecutive (s.device.nextUsed + 1) (s.stored ++ [t.queue.nextUsed + 1]) :=
    hstored.snoc (by rw [hused]; ac_rfl)
  refine ⟨hrings.congr (.refl _) hq.layout, hconfig.trans hq.queue.config, ?_, ?_, ?_, ?_⟩
  · show q.nextAvail = s.device.nextAvail + BitVec.ofNat 16 (s.taken ++ _).length
    cases hq.queue with
    | empty | putBack => exact (append_nil s.taken).symm ▸ havail
    | used | dropped | panicked =>
      show t.queue.nextAvail + 1 = _ + BitVec.ofNat 16 (s.taken ++ [t.queue.nextAvail]).length
      rw [length_append, length_singleton, BitVec.ofNat_add, ← BitVec.add_assoc, ← havail]
      rfl
  · show q.nextUsed = s.device.nextUsed + BitVec.ofNat 16 (s.stored ++ _).length
    cases hq.queue with
    | empty | putBack | dropped | panicked => exact (append_nil s.stored).symm ▸ hused
    | used =>
      show t.queue.nextUsed + 1 = _ + BitVec.ofNat 16 (s.stored ++ [t.queue.nextUsed + 1]).length
      rw [length_append, length_singleton, BitVec.ofNat_add, ← BitVec.add_assoc, ← hused]
      rfl
  · show Consecutive s.device.nextAvail (s.taken ++ _)
    cases hq.queue with
    | empty | putBack => exact (append_nil s.taken).symm ▸ htaken
    | used | dropped | panicked => exact htake
  · show Consecutive (s.device.nextUsed + 1) (s.stored ++ _)
    cases hq.queue with
    | empty | putBack | dropped | panicked => exact (append_nil s.stored).symm ▸ hstored
    | used => exact hstore

theorem Inv.shown (h : s.Inv m) (ht : s.thread = some t) (hq : TurnSpec m t.queue turn q m')
    (pc : ThreadPc) (hne : (s.turned t turn q pc).stored ≠ s.stored) :
    (s.turned t turn q pc).stored.getLast? = some (s.device.usedIdxField m') := by
  have hused : turn = .used := by
    by_contra hno
    refine hne ?_
    show s.stored ++ (if turn = .used then _ else _) = s.stored
    rw [if_neg hno, append_nil]
  have hring : q.usedRing = s.device.usedRing := by
    have hconfig := h.config
    rw [current_eq ht] at hconfig
    exact hq.queue.config.usedRing.trans hconfig.usedRing
  have hidx : s.device.usedIdxField m' = q.nextUsed := by
    rw [← hq.index hused]
    unfold Queue.usedIdxField
    rw [hring]
  show (s.stored ++ if turn = .used then [q.nextUsed] else []).getLast? = _
  rw [if_pos hused, List.getLast?_concat, hidx]

end Side

namespace Port

structure InOrder (s : Port M) : Prop where
  rx : s.rx.InOrder
  tx : s.tx.InOrder

instance (s : Port M) : Decidable s.InOrder :=
  decidable_of_iff (s.rx.InOrder ∧ s.tx.InOrder) ⟨fun h => ⟨h.1, h.2⟩, fun h => ⟨h.1, h.2⟩⟩

/-- When the port is opened again and its old threads have ended, their copies of the queues have
the counters that the device's own still have. -/
def Orderly (s : Port M) : PortStep → Prop
  | .joined => s.rx.Unmoved ∧ s.tx.Unmoved
  | _ => True

instance (s : Port M) (e : PortStep) : Decidable (s.Orderly e) := by
  unfold Orderly
  split <;> infer_instance

/-- The value that was stored last is what the driver finds in the ring. -/
def Shown (s s' : Port M) : Prop :=
  (s'.rx.stored ≠ s.rx.stored →
      s'.rx.stored.getLast? = some (s'.rx.device.usedIdxField s'.mem)) ∧
    (s'.tx.stored ≠ s.tx.stored →
      s'.tx.stored.getLast? = some (s'.tx.device.usedIdxField s'.mem))

structure Fresh (s : Port M) : Prop where
  rxRings : s.rx.device.RingsMapped s.mem
  txRings : s.tx.device.RingsMapped s.mem
  rxThread : s.rx.thread = none
  txThread : s.tx.thread = none
  rxTaken : s.rx.taken = [] ∧ s.rx.stored = []
  txTaken : s.tx.taken = [] ∧ s.tx.stored = []

structure Inv (s : Port M) : Prop where
  rx : s.rx.Inv s.mem
  tx : s.tx.Inv s.mem

inductive Move [TryAccess M] (s : Port M) : PortStep → Port M → Prop
  | started (hrx : s.rx.thread = none) (htx : s.tx.thread = none) : Move s .start s.spawn
  | joined : Move s .joined s.spawn
  | waits : Move s .start { s with stop := true, opening := true }
  | rxTurned {answers : List InputAnswer} {t : Thread} {r : RxTurn M} (ht : s.rx.thread = some t)
      (hr : processRx s.mem t.queue answers = some r) :
      Move s (.rxTurn answers)
        { s with mem := r.mem, rx := s.rx.turned t r.turn r.queue (rxPc r.turn r.eof) }
  | rxGoes {e : PortStep} {t : Thread} (ht : s.rx.thread = some t) (pc : ThreadPc) :
      Move s e { s with rx := s.rx.goto t pc }
  | txTurned {answers : List Answer} {t : Thread} {r : TxTurn M} (ht : s.tx.thread = some t)
      (hr : s.takeTx t answers = some r) :
      Move s (.txTurn answers)
        { s with
          mem := r.mem
          tx := s.tx.turned t r.turn r.queue r.turn.pc
          poisoned := s.poisoned || r.turn == .panicked
          sent := r.output.sent
          signals := r.output.signals }
  | txGoes {e : PortStep} {t : Thread} (ht : s.tx.thread = some t) (pc : ThreadPc) :
      Move s e { s with tx := s.tx.goto t pc }
  | wrote (addr : ℕ) (bs : List Byte) :
      Move s (.guest addr bs) { s with mem := (writeSlice s.mem addr bs).1 }

section Steps

variable {s s' : Port M}

theorem thread_step {α : Type} {x : α} {o : Option Thread} {pc : ThreadPc} {f : Thread → Option α}
    (h : (match o with
      | some t => if t.pc = pc then f t else none
      | none => none) = some x) : ∃ t, o = some t ∧ t.pc = pc ∧ f t = some x := by
  split at h
  · exact ⟨_, rfl, Option.ite_none_right_eq_some.mp h⟩
  · cases h

theorem move_of_step [TryAccess M] {e : PortStep} (hs : s.step e = some s') : Move s e s' := by
  cases e with
  | start =>
    rw [step] at hs
    split_ifs at hs with _ hnone <;> cases hs
    exacts [.started hnone.1 hnone.2, .waits]
  | joined =>
    obtain ⟨-, ⟨⟩⟩ := Option.ite_none_right_eq_some.mp hs
    exact .joined
  | rxTurn answers =>
    obtain ⟨t, ht, -, hs⟩ := thread_step hs
    obtain ⟨r, hr, rfl⟩ := Option.map_eq_some_iff.mp hs
    exact .rxTurned ht hr
  | txTurn answers =>
    obtain ⟨t, ht, -, hs⟩ := thread_step hs
    obtain ⟨r, hr, rfl⟩ := Option.map_eq_some_iff.mp hs
    exact .txTurned ht hr
  | rxUnpark | rxCheck =>
    obtain ⟨t, ht, -, ⟨⟩⟩ := thread_step hs
    exact .rxGoes ht _
  | txUnpark =>
    obtain ⟨t, ht, -, ⟨⟩⟩ := thread_step hs
    exact .txGoes ht _
  | guest addr bs =>
    cases hs
    exact .wrote addr bs

variable {t : Thread} {answers : List Answer} {r : TxTurn M}

theorem sideInv_fresh {m : M} {side : Side} (hr : side.device.RingsMapped m)
    (ht : side.thread = none) (hh : side.taken = [] ∧ side.stored = []) : side.Inv m := by
  have hcurrent : side.current = side.device := by
    rw [Side.current, ht]
    rfl
  refine ⟨hr, ?_, ?_, ?_, ?_, ?_⟩
  · exact hcurrent ▸ .refl _
  · simp [hcurrent, hh.1]
  · simp [hcurrent, hh.2]
  · rw [hh.1]
    rfl
  · rw [hh.2]
    rfl

theorem Fresh.inv (h : s.Fresh) : s.Inv :=
  ⟨sideInv_fresh h.rxRings h.rxThread h.rxTaken, sideInv_fresh h.txRings h.txThread h.txTaken⟩

variable [LawfulGuestMemory M] [TryAccess M] [LawfulTryAccess M]

omit [LawfulTryAccess M] in
theorem takeTx_spec (hrings : t.queue.RingsMapped s.mem) (h : s.takeTx t answers = some r) :
    TurnSpec s.mem t.queue r.turn r.queue r.mem := by
  have hlocked : processTx s.mem t.queue (.toAnswer s.sent s.signals answers) = some r →
      TurnSpec s.mem t.queue r.turn r.queue r.mem :=
    fun hp => (processTx_cases hrings hp).spec hrings
  unfold takeTx at h
  obtain ⟨res, hpop⟩ := Queue.pop_isSome hrings
  obtain rfl | ⟨head, rfl, _⟩ := Queue.pop_cases hpop
  · simp only [hpop] at h
    exact hlocked h
  · simp only [hpop] at h
    split_ifs at h
    · cases h
      exact .of_ne .panicked (.refl _) nofun
    · exact hlocked h

theorem Inv.rxSpec (h : s.Inv) {answers : List InputAnswer} {r : RxTurn M}
    (ht : s.rx.thread = some t) (hr : processRx s.mem t.queue answers = some r) :
    TurnSpec s.mem t.queue r.turn r.queue r.mem := by
  have hconfig := h.rx.config
  rw [Side.current_eq ht] at hconfig
  exact processRx_spec (h.rx.rings.congr hconfig (.refl _)) hr

omit [LawfulTryAccess M] in
theorem Inv.txSpec (h : s.Inv) (ht : s.tx.thread = some t) (hr : s.takeTx t answers = some r) :
    TurnSpec s.mem t.queue r.turn r.queue r.mem := by
  have hconfig := h.tx.config
  rw [Side.current_eq ht] at hconfig
  exact takeTx_spec (h.tx.rings.congr hconfig (.refl _)) hr

theorem Inv.move (h : s.Inv) {e : PortStep} (ho : s.Orderly e) (hm : Move s e s') : s'.Inv := by
  cases hm with
  | started hrx htx =>
    exact ⟨h.rx.spawn (by simp [Side.Unmoved, hrx]) _, h.tx.spawn (by simp [Side.Unmoved, htx]) _⟩
  | joined => exact ⟨h.rx.spawn ho.1 _, h.tx.spawn ho.2 _⟩
  | waits => exact ⟨h.rx, h.tx⟩
  | rxTurned ht hr =>
    have hspec := h.rxSpec ht hr
    exact ⟨h.rx.turned ht hspec _, h.tx.layout hspec.layout⟩
  | rxGoes ht pc => exact ⟨h.rx.goto ht pc, h.tx⟩
  | txTurned ht hr =>
    have hspec := h.txSpec ht hr
    exact ⟨h.rx.layout hspec.layout, h.tx.turned ht hspec _⟩
  | txGoes ht pc => exact ⟨h.rx, h.tx.goto ht pc⟩
  | wrote addr bs =>
    have hl : SameLayout s.mem (writeSlice s.mem addr bs).1 :=
      LawfulGuestMemory.writeSlice_find s.mem addr bs
    exact ⟨h.rx.layout hl, h.tx.layout hl⟩

theorem shown_move (h : s.Inv) {e : PortStep} (hm : Move s e s') : Shown s s' := by
  cases hm with
  | started | joined | waits | rxGoes | txGoes | wrote => exact ⟨absurd rfl, absurd rfl⟩
  | rxTurned ht hr => exact ⟨h.rx.shown ht (h.rxSpec ht hr) _, absurd rfl⟩
  | txTurned ht hr => exact ⟨absurd rfl, h.tx.shown ht (h.txSpec ht hr) _⟩

end Steps

/-- **Rings over re-openings.** In every run of the threads of a port, the device that opens it any
number of times, and the guest, each side takes the chains of its ring one after the other and
stores all values of the index in order, and what is stored is what the driver finds; provided that
whenever the port is opened again, the threads that end have left their counters where those of the
device's queues are. -/
theorem consecutive [LawfulGuestMemory M] [TryAccess M] [LawfulTryAccess M] {s : Port M}
    (h : s.Fresh) {steps : List PortStep} (ho : Along step Orderly s steps) :
    Along step (fun s e => ∀ s', s.step e = some s' → s'.InOrder ∧ Shown s s') s steps := by
  refine along_reach (P := Inv) (fun s e s' hinv he hs => ?_) h.inv ho
  have hinv' := hinv.move he (move_of_step hs)
  exact ⟨hinv', ⟨hinv'.rx.order, hinv'.tx.order⟩, shown_move hinv (move_of_step hs)⟩

/-! ## Runs -/

/-- A port with an input or an output that was never opened. There are two chains, each of one
descriptor of two bytes with these flags, and the first `ready` of them are available. -/
def twoChains (hasInput hasOutput : Bool) (flags : U16) (ready : ℕ) : Port FlatMemory where
  mem := (((smallMemory.put 0 (Descriptor.toBytes ⟨0x100, 2, flags, 0⟩)).put 16
    (Descriptor.toBytes ⟨0x104, 2, flags, 0⟩)).put 0x82 (leBytes 2 ready)).put 0x84
      (leBytes 2 0 ++ leBytes 2 1)
  hasInput := hasInput
  hasOutput := hasOutput
  rx := ⟨smallQueue, none, [], []⟩
  tx := ⟨smallQueue, none, [], []⟩
  stop := false
  opening := false
  poisoned := false
  sent := []
  signals := 0

theorem twoChains_fresh (hasInput hasOutput : Bool) (flags : U16) (ready : ℕ) :
    (twoChains hasInput hasOutput flags ready).Fresh :=
  ⟨smallQueue_rings.congr (.refl _) fun _ => rfl, smallQueue_rings.congr (.refl _) fun _ => rfl,
    rfl, rfl, ⟨rfl, rfl⟩, ⟨rfl, rfl⟩⟩

def openedTwice : List PortStep :=
  [.start, .txTurn [], .start, .txUnpark, .joined,
    .guest 0x82 (leBytes 2 2), .txTurn [.wrote 2], .txTurn [.wrote 2]]

theorem consecutive_opened :
    (run step (twoChains false true 0 0) openedTwice).map (fun s => (s.tx.taken, s.tx.stored)) =
        some ([0, 1], [1, 2]) ∧
      Along step (fun s e => ∀ s', s.step e = some s' → s'.InOrder ∧ Shown s s')
        (twoChains false true 0 0) openedTwice :=
  ⟨by decide +kernel, consecutive (twoChains_fresh false true 0 0) (by decide +kernel)⟩

def sentAndReopened : List PortStep :=
  [.start, .txTurn [.wrote 2], .txTurn [.wrote 2], .txTurn [], .start, .txUnpark, .joined]

/-- Both chains are filled, the second one while the port is opened again. -/
def filledAndReopened : List PortStep :=
  [.start, .rxTurn [.read [7, 8]], .rxCheck, .start, .rxTurn [.read [9, 9]], .rxCheck, .joined]

/-- After a re-opening the new thread takes the first chain again, and the index of the used ring
goes back from 2 to 1. -/
theorem chains_taken_again :
    ((run step (twoChains false true 0 2) sentAndReopened).map (fun s =>
        (s.tx.taken, s.tx.stored, smallQueue.usedIdxField s.mem)) = some ([0, 1], [1, 2], 2) ∧
      ∃ s ∈ run step (twoChains false true 0 2) (sentAndReopened ++ [.txTurn [.wrote 2]]),
        (s.tx.taken, s.tx.stored, smallQueue.usedIdxField s.mem) = ([0, 1, 0], [1, 2, 1], 1) ∧
        ¬ s.InOrder) ∧
    ((run step (twoChains true false 2 2) filledAndReopened).map (fun s =>
        (s.rx.taken, s.rx.stored, smallQueue.usedIdxField s.mem)) = some ([0, 1], [1, 2], 2) ∧
      ∃ s ∈ run step (twoChains true false 2 2) (filledAndReopened ++ [.rxTurn [.read [5, 5]]]),
        (s.rx.taken, s.rx.stored, smallQueue.usedIdxField s.mem) = ([0, 1, 0], [1, 2, 1], 1) ∧
        ¬ s.InOrder) := by
  refine ⟨⟨?_, ?_⟩, ⟨?_, ?_⟩⟩ <;> decide +kernel

end Port

end Shelter.Console
