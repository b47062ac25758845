import Shelter.Lib.Ring
import Shelter.Virtio.RingSafety

/-!
# Which used indices interrupt the driver

With `EVENT_IDX` the driver names in `used_event` the used index after which it wants an interrupt.
`needs_notification` finds out by wrapped arithmetic, from `num_added`, whether that index has been
passed since it was called last. A queue is run here through any calls of its functions and any
writes of the guest, next to two ghosts: the used index at the last call and the number of chains
added since. `num_added` is that number modulo `2 ^ 16` in every run, so the answer is right
while fewer chains than that are added.
-/

open Bytes Run

namespace Shelter.Virtio

variable {M : Type} [GuestMemory M]

namespace UsedEvents

/-- A queue with its memory, the used index at the last call of `needs_notification` and the number
of chains added since. -/
structure State (M : Type) where
  queue : Queue
  mem : M
  old : U16
  added : ℕ

inductive Event
  | op (op : RingOp)
  | guest (addr : ℕ) (bytes : List Byte)

variable (s : State M)

/-- A chain has been added if the used index has moved, also where its store has failed. -/
def State.after (r : Queue × M) : State M where
  queue := r.1
  mem := r.2
  old := s.old
  added := if r.1.nextUsed = s.queue.nextUsed then s.added else s.added + 1

def State.notified (r : Queue × M) : State M where
  queue := r.1
  mem := r.2
  old := r.1.nextUsed
  added := 0

def step : Event → Option (State M)
  | .op .needsNotification =>
    (RingOp.needsNotification.run s.queue s.mem).map State.notified
  | .op op => (op.run s.queue s.mem).map s.after
  | .guest addr bytes => some { s with mem := (writeSlice s.mem addr bytes).1 }

def Consumed (idx : U16) : Prop := ∃ k < s.added, idx = s.old + BitVec.ofNat 16 k

instance (idx : U16) : Decidable (Consumed s idx) :=
  inferInstanceAs (Decidable (∃ k < s.added, idx = s.old + BitVec.ofNat 16 k))

def Notifies : Prop :=
  ∀ usedEvent, s.queue.usedEvent s.mem = .ok usedEvent →
    ∃ b q', s.queue.needsNotification s.mem = .ok (b, q') ∧ (b = true ↔ Consumed s usedEvent)

/-! ## The counters -/

/-- The counters of the queue are those of the ghosts, wrapped. -/
structure Counted (s : State M) : Prop where
  eventIdx : s.queue.eventIdxEnabled = true
  numAdded : s.queue.numAdded = BitVec.ofNat 16 s.added
  nextUsed : s.queue.nextUsed = s.old + BitVec.ofNat 16 s.added

def Advanced (q q' : Queue) : Prop :=
  q'.nextUsed = q.nextUsed ∧ q'.numAdded = q.numAdded ∨
    q'.nextUsed = q.nextUsed + 1 ∧ q'.numAdded = q.numAdded + 1

theorem advanced_addUsed (q : Queue) (m : M) (headIndex : U16) (usedLen : U32) :
    Advanced q (q.addUsed m headIndex usedLen).2.1 := by
  unfold Queue.addUsed
  split_ifs
  · exact .inl ⟨rfl, rfl⟩
  · dsimp only
    split
    · exact .inl ⟨rfl, rfl⟩
    · split
      · exact .inl ⟨rfl, rfl⟩
      · split <;> exact .inr ⟨rfl, rfl⟩

variable {op : RingOp} {r : Queue × M} {s : State M}

/-- Only `add_used` moves the counters, and `needs_notification` starts one of them anew. -/
theorem advanced_run {q : Queue} {m : M} (hop : op ≠ .needsNotification) (h : op.run q m = some r) :
    Advanced q r.1 := by
  cases op with
  | len =>
    obtain ⟨_, _, rfl⟩ := Option.map_eq_some_iff.mp h
    exact .inl ⟨rfl, rfl⟩
  | pop =>
    obtain ⟨_, hp, rfl⟩ := Option.map_eq_some_iff.mp h
    obtain he | ⟨c, he, _⟩ := Queue.pop_cases hp <;> rw [he] <;> exact .inl ⟨rfl, rfl⟩
  | undoPop =>
    cases h
    exact .inl ⟨rfl, rfl⟩
  | addUsed headIndex usedLen =>
    cases h
    exact advanced_addUsed q m headIndex usedLen
  | usedEvent | setAvailEvent | setUsedFlags | enableNotification | disableNotification =>
    obtain ⟨_, _, rfl⟩ := RingOp.run_toOption h
    exact .inl ⟨rfl, rfl⟩
  | needsNotification => exact absurd rfl hop

/-- The inequality of `needs_notification`, in a state whose counters are right. -/
theorem notifies_of_counted (hs : Counted s) (hlt : s.added < 2 ^ 16) : Notifies s := by
  intro usedEvent hev
  have hpassed := Ring.passed_iff hlt s.old usedEvent
  -- `used_idx - old` is `num_added`
  have hold : s.queue.nextUsed - (s.queue.nextUsed - s.queue.numAdded) = s.queue.numAdded := by
    bv_omega
  rw [← hs.nextUsed, ← hs.numAdded, ← hold] at hpassed
  unfold Queue.needsNotification
  rw [if_pos hs.eventIdx, hev]
  exact ⟨_, _, rfl, decide_eq_true_iff.trans hpassed⟩

variable [LawfulGuestMemory M]

theorem counted_after (hs : Counted s) (hop : op ≠ .needsNotification)
    (h : op.run s.queue s.mem = some r) : Counted (s.after r) := by
  have heq : r.1.eventIdxEnabled = true :=
    (RingOp.run_frame op h).config.eventIdx.trans hs.eventIdx
  rcases advanced_run hop h with ⟨hu, ha⟩ | ⟨hu, ha⟩
  · have hadded : (s.after r).added = s.added := if_pos hu
    exact ⟨heq, by rw [hadded, ← hs.numAdded]; exact ha, by rw [hadded]; exact hu.trans hs.nextUsed⟩
  · have hne : ¬ r.1.nextUsed = s.queue.nextUsed := by rw [hu]; bv_omega
    have hadded : (s.after r).added = s.added + 1 := if_neg hne
    refine ⟨heq, ?_, ?_⟩
    · rw [hadded, BitVec.ofNat_add, ← hs.numAdded]
      exact ha
    · rw [hadded, BitVec.ofNat_add, ← BitVec.add_assoc]
      exact hu.trans (congrArg (· + 1) hs.nextUsed)

theorem counted_notified (hs : Counted s)
    (h : RingOp.needsNotification.run s.queue s.mem = some r) : Counted (State.notified r) := by
  have heq : r.1.eventIdxEnabled = true :=
    (RingOp.run_frame _ h).config.eventIdx.trans hs.eventIdx
  refine ⟨heq, ?_, by simp [State.notified]⟩
  obtain ⟨_, hn, rfl⟩ := RingOp.run_toOption h
  unfold Queue.needsNotification at hn
  rw [if_pos hs.eventIdx] at hn
  split at hn
  · cases hn
  · cases hn
    rfl

theorem counted_step {s' : State M} {e : Event} (hs : Counted s) (h : step s e = some s') :
    Counted s' := by
  cases e with
  | guest addr bytes =>
    cases h
    exact ⟨hs.eventIdx, hs.numAdded, hs.nextUsed⟩
  | op op =>
    by_cases hop : op = .needsNotification
    · subst hop
      obtain ⟨r, hr, rfl⟩ := Option.map_eq_some_iff.mp h
      exact counted_notified hs hr
    · obtain ⟨r, hr, rfl⟩ : ∃ r, op.run s.queue s.mem = some r ∧ s.after r = s' := by
        cases op <;> first | exact Option.map_eq_some_iff.mp h | exact absurd rfl hop
      exact counted_after hs hop hr

/-! ## Every run -/

/-- **Interrupts.** In every run of a queue with `EVENT_IDX`, `needs_notification` returns true
exactly if the index in `used_event` is among those consumed since its last call, as long as
fewer than `2 ^ 16` chains have been added since. -/
theorem needsNotification_iff_consumed {q : Queue} (m : M) (heq : q.eventIdxEnabled = true)
    (hadded : q.numAdded = 0) (es : List Event) :
    Along step (fun s e => e = .op .needsNotification → s.added < 2 ^ 16 → Notifies s)
      ⟨q, m, q.nextUsed, 0⟩ es := by
  have hstart : Counted (⟨q, m, q.nextUsed, 0⟩ : State M) := ⟨heq, hadded, by simp⟩
  refine (along_congr (P := Counted) (fun s e hs => ?_) ?_ hstart es).mp (along_true _ es)
  · exact iff_of_true trivial fun _ hlt => notifies_of_counted hs hlt
  · intro s e s' hs _ h
    exact counted_step hs h

/-- Two chains added across the wrap of the index, the first of which the driver waits for. -/
theorem needsNotification_wraps :
    (run step ⟨{ smallQueue with nextUsed := 0xffff, eventIdxEnabled := true }, smallMemory,
        0xffff, 0⟩
      [.guest 0x8c [0xff, 0xff], .op (.addUsed 1 0), .op (.addUsed 2 0)]).isSome = true ∧
    Along step (fun s e => e = .op .needsNotification → s.added < 2 ^ 16 → Notifies s)
      ⟨{ smallQueue with nextUsed := 0xffff, eventIdxEnabled := true }, smallMemory, 0xffff, 0⟩
      [.guest 0x8c [0xff, 0xff], .op (.addUsed 1 0), .op (.addUsed 2 0),
        .op .needsNotification] :=
  ⟨by decide +kernel, needsNotification_iff_consumed smallMemory rfl rfl _⟩

end UsedEvents

end Shelter.Virtio
