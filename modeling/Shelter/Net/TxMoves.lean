import Shelter.Net.Tx

/-!
# What a step of the transmit side does

`Steady` holds of every state of the worker, whatever the guest and the socket do: the rings stay
usable, and an unfinished frame is still in the buffer. From such a state a step is one of the moves
of `Move` (`move_of_step`), so the results about runs are proved by cases on the move.
-/

open Bytes

namespace Shelter.Net

open Virtio Run Queue List Option

variable {M : Type} [GuestMemory M]

/-- The chain that `process_tx` has in its hands. -/
def TxPc.hand : TxPc → Option TxHand
  | .copying hand | .sending (.frame hand) _ => some hand
  | .idle | .disabling | .starting | .popping _ | .sending .writeable _ | .sending .unfinished _
  | .leaving _ | .enabling | .panicked => none

/-- Between the start of `process_tx` and the end of a frame no other frame is unfinished. -/
def TxPc.Clear : TxPc → Prop
  | .popping _ | .copying _ | .sending (.frame _) _ => True
  | .idle | .disabling | .starting | .sending .writeable _ | .sending .unfinished _ | .leaving _
  | .enabling | .panicked => False

/-- The device wrote to the used ring and to nothing else. -/
structure UsedWritten (q : Queue) (m m' : M) : Prop where
  layout : SameLayout m m'
  outside : SameOutside (Range q.usedRing.toNat (6 + 8 * q.size.toNat)) m m'

namespace TxWorker

structure Steady (s : TxWorker M) : Prop where
  rings : s.queue.RingsMapped s.mem
  handIndex : ∀ h ∈ s.pc.hand, h.head.index < s.queue.size
  clear : s.pc.Clear → s.backend.lastPartialWriteLength = 0
  inRange : s.backend.lastPartialWriteLength ≠ 0 →
    vnetHdrLen - passtHeaderLen + s.backend.lastPartialWriteLength < s.frame.length
  loop : ∀ job b, s.pc = .sending job b → b < s.unsent.length

inductive Resumes (s : TxWorker M) : TxStep → TxJob → Prop
  | writeable : s.pc = .idle → Resumes s .writeable .writeable
  | unfinished : s.pc = .starting → Resumes s .start .unfinished

/-- Where the worker goes when the rest of a frame was sent, or not. -/
inductive Resumed : TxJob → Bool → TxPc → Prop
  | writeable : Resumed .writeable true .disabling
  | writeableFailed : Resumed .writeable false .idle
  | unfinished : Resumed .unfinished true (.popping false)
  | unfinishedFailed : Resumed .unfinished false .enabling

inductive Move (s : TxWorker M) : TxStep → TxWorker M → Prop
  | kicked : s.pc = .idle → Move s .queueEvent { s with pc := .disabling }
  | disabled {m : M} : s.pc = .disabling → UsedWritten s.queue s.mem m →
      Move s .disable { s with mem := m, pc := .starting }
  /-- there is nothing to finish -/
  | skipped {e : TxStep} {job : TxJob} {pc : TxPc} : Resumes s e job → Resumed job true pc →
      s.backend.lastPartialWriteLength = 0 → Move s e { s with pc := pc }
  | resumed {e : TxStep} {job : TxJob} : Resumes s e job →
      s.backend.lastPartialWriteLength ≠ 0 → Move s e { s with pc := .sending job 0 }
  | empty {b : Bool} : s.pc = .popping b → s.queue.pop s.mem = some (none, s.queue) →
      Move s .pop { s with pc := .leaving b }
  | popped {b : Bool} {head : DescriptorChain} : s.pc = .popping b →
      s.queue.pop s.mem =
        some (some head, { s.queue with nextAvail := s.queue.nextAvail + 1 }) →
      head.index < s.queue.size →
      Move s .pop { s with
        queue := { s.queue with nextAvail := s.queue.nextAvail + 1 }
        pc := .copying ⟨b, s.popped, head⟩
        popped := s.popped + 1 }
  /-- the chain is too short for `write_frame` -/
  | short {hand : TxHand} : s.pc = .copying hand →
      ¬ vnetHdrLen < (chainBuffer s.mem hand.head).length →
      Move s .copy { s with frame := chainBuffer s.mem hand.head, pc := .panicked }
  | copied {hand : TxHand} {frame : List Byte} : s.pc = .copying hand →
      s.backend.writeFrame vnetHdrLen (chainBuffer s.mem hand.head) = some frame →
      Move s .copy { s with frame := frame, pc := .sending (.frame hand) 0 }
  /-- the socket takes a part -/
  | took {job : TxJob} {b size : ℕ} : s.pc = .sending job b →
      b + ((s.unsent.drop b).take size).length < s.unsent.length →
      Move s (.send (.ok size)) { s with
        sent := s.sent ++ (s.unsent.drop b).take size
        pc := .sending job (b + ((s.unsent.drop b).take size).length) }
  /-- the socket takes the rest of a frame that was begun before -/
  | ended {job : TxJob} {b size : ℕ} {pc : TxPc} : s.pc = .sending job b → Resumed job true pc →
      (s.unsent.drop b).take size = s.unsent.drop b →
      Move s (.send (.ok size)) { s with
        backend := ⟨0⟩, sent := s.sent ++ s.unsent.drop b, pc := pc }
  /-- the socket takes the rest of the frame of a chain -/
  | frameEnded {hand : TxHand} {b size : ℕ} {m : M} : s.pc = .sending (.frame hand) b →
      (s.unsent.drop b).take size = s.unsent.drop b → UsedWritten s.queue s.mem m →
      Move s (.send (.ok size)) { s with
        queue := s.queue.bumpUsed
        mem := m
        backend := ⟨0⟩
        frame := []
        sent := s.sent ++ s.unsent.drop b
        pc := .popping true
        used := hand.number :: s.used
        undecided := true }
  /-- the socket is full, or has an error, while the rest of a frame is sent -/
  | stopped {job : TxJob} {b : ℕ} {pc : TxPc} {answer : SendAnswer} :
      s.pc = .sending job b → Resumed job false pc → (∀ size, answer ≠ .ok size) →
      Move s (.send answer) { s with
        backend := ⟨s.backend.lastPartialWriteLength + if answer = .eagain then b else 0⟩
        pc := pc }
  /-- the socket is full at the start of a frame -/
  | undone {hand : TxHand} : s.pc = .sending (.frame hand) 0 →
      Move s (.send .eagain) { s with
        queue := s.queue.undoPop, pc := .leaving hand.raiseIrq, undone := hand.number :: s.undone }
  /-- the socket is full in the middle of a frame -/
  | frameStopped {hand : TxHand} {b : ℕ} {m : M} : s.pc = .sending (.frame hand) b → b ≠ 0 →
      UsedWritten s.queue s.mem m →
      Move s (.send .eagain) { s with
        queue := s.queue.bumpUsed
        mem := m
        backend := ⟨s.backend.lastPartialWriteLength + b⟩
        pc := .leaving true
        used := hand.number :: s.used
        undecided := true }
  /-- the socket has an error while the frame of a chain is sent -/
  | broken {hand : TxHand} {b : ℕ} {answer : SendAnswer} : s.pc = .sending (.frame hand) b →
      ¬ answer.Fine → Move s (.send answer) { s with pc := .enabling }
  | left {b : Bool} {q : Queue} {k : ℕ} : s.pc = .leaving b → Queue.SameConfig s.queue q →
      q.nextAvail = s.queue.nextAvail →
      Move s .leave { s with
        queue := q, pc := .enabling, interrupts := k, undecided := !b && s.undecided }
  | enabled {b : Bool} {m : M} : s.pc = .enabling → UsedWritten s.queue s.mem m →
      s.queue.enableNotification s.mem = (.ok b, m) →
      Move s .enable { s with mem := m, pc := if b then .disabling else .idle }
  | guest {addr : ℕ} {bs : List Byte} {m : M} : SameLayout s.mem m →
      Move s (.guest addr bs) { s with mem := m }

section Moves

variable {s s' : TxWorker M}

omit [GuestMemory M] in
/-- The place of the worker is written into the state, where what is known of it computes. -/
theorem at_pc {P : TxWorker M → Prop} {pc : TxPc} (hpc : s.pc = pc) (h : P s) :
    P { s with pc := pc } := by
  subst hpc
  exact h

omit [GuestMemory M] in
theorem length_unsent (s : TxWorker M) :
    s.unsent.length =
      s.frame.length - (vnetHdrLen - passtHeaderLen + s.backend.lastPartialWriteLength) :=
  length_drop

theorem tryFinishWrite_of_unfinished (h : s.Steady)
    (hp : s.backend.lastPartialWriteLength ≠ 0) (job : TxJob) :
    s.tryFinishWrite job = { s with pc := .sending job 0 } := by
  have hlt := h.inRange hp
  unfold tryFinishWrite Passt.hasUnfinishedWrite
  rw [if_pos (by simpa using hp), if_pos (show Passt.InRange _ _ _ from hlt.le), sendLoop,
    if_pos (by rw [length_unsent]; omega)]

theorem tryFinishWrite_of_finished (hp : s.backend.lastPartialWriteLength = 0) (job : TxJob) :
    s.tryFinishWrite job = s.sendDone job (.ok ()) := by
  unfold tryFinishWrite Passt.hasUnfinishedWrite
  rw [if_neg (by simpa using hp)]

theorem move_tryFinishWrite (h : s.Steady) {e : TxStep} {job : TxJob} (hr : Resumes s e job) :
    Move s e (s.tryFinishWrite job) := by
  by_cases hp : s.backend.lastPartialWriteLength = 0
  · rw [tryFinishWrite_of_finished hp]
    cases hr with
    | writeable hpc => exact .skipped (.writeable hpc) .writeable hp
    | unfinished hpc => exact .skipped (.unfinished hpc) .unfinished hp
  · rw [tryFinishWrite_of_unfinished h hp]
    exact .resumed hr hp

theorem take_eq_self_of_full {l : List Byte} {b size : ℕ} (hb : b < l.length)
    (h : ¬ b + ((l.drop b).take size).length < l.length) : (l.drop b).take size = l.drop b := by
  rw [length_take, length_drop] at h
  exact take_of_length_le (by rw [length_drop]; omega)

theorem move_pop {b : Bool} (hpc : s.pc = .popping b)
    (hpop : s.queue.pop s.mem ≠ none) : Move s .pop (s.pop b) := by
  unfold pop
  rcases hp : s.queue.pop s.mem with _ | ⟨_ | head, q⟩
  · exact absurd hp hpop
  · rcases pop_cases hp with heq | ⟨c, ⟨⟩, -⟩
    · cases heq
      exact .empty hpc hp
  · rcases pop_cases hp with heq | ⟨c, heq, hlt⟩
    · cases heq
    · cases heq
      exact .popped hpc hp hlt

theorem move_copy (h : s.Steady) {hand : TxHand} (hpc : s.pc = .copying hand) :
    Move s .copy (s.copy hand) := by
  have hclear : s.backend.lastPartialWriteLength = 0 := h.clear (by rw [hpc]; trivial)
  have hsome := Passt.writeFrame_isSome hclear (show passtHeaderLen ≤ vnetHdrLen by decide)
    (chainBuffer s.mem hand.head)
  unfold copy
  rcases hw : s.backend.writeFrame vnetHdrLen (chainBuffer s.mem hand.head) with _ | frame
  · rw [hw] at hsome
    exact .short hpc fun hlt => by simpa using hsome.mpr hlt
  · obtain ⟨-, hlt, hlen, -⟩ := Passt.writeFrame_some hw
    have hloop : 0 < (TxWorker.unsent { s with frame := frame }).length := by
      rw [length_unsent]
      simp only [hclear, hlen]
      omega
    simp only [sendLoop, if_pos hloop]
    exact .copied hpc hw

section Rings

theorem move_send_error (hpc : s.pc = .sending job b) {answer : SendAnswer} (ha : ¬ answer.Fine) :
    Move s (.send answer) (s.send job b answer) := by
  have hok : ∀ size, answer ≠ .ok size := by
    rintro size rfl
    exact ha ⟨nofun, nofun⟩
  have hagain : answer ≠ .eagain := by
    rintro rfl
    exact ha ⟨nofun, nofun⟩
  have hsend : ∃ e, (e = .processNotRunning ∨ e = .internal) ∧
      s.send job b answer = s.sendDone job (.error e) := by
    unfold send
    cases answer with
    | ok size => exact absurd rfl (hok size)
    | eagain => exact absurd rfl hagain
    | epipe => exact ⟨_, .inl rfl, by simp only [Passt.sendTurn, append_nil]⟩
    | other => exact ⟨_, .inr rfl, by simp only [Passt.sendTurn, append_nil]⟩
  obtain ⟨e, he, heq⟩ := hsend
  rw [heq]
  cases job with
  | writeable =>
    have hm := Move.stopped (s := s) hpc .writeableFailed hok
    rwa [if_neg hagain] at hm
  | unfinished =>
    have hm := Move.stopped (s := s) hpc .unfinishedFailed hok
    rwa [if_neg hagain] at hm
  | frame hand => rcases he with rfl | rfl <;> exact .broken hpc ha

theorem Steady.move (h : s.Steady) (hm : Move s e s') : s'.Steady := by
  have hlen := length_unsent s
  cases hm with
  | kicked | empty | broken => exact { h with handIndex := nofun, clear := nofun, loop := nofun }
  | disabled hpc hm =>
    exact ⟨h.rings.congr (.refl _) hm.layout, nofun, nofun, h.inRange, nofun⟩
  | skipped hr hto hp =>
    cases hto with
    | writeable => exact { h with handIndex := nofun, clear := nofun, loop := nofun }
    | unfinished => exact { h with handIndex := nofun, clear := fun _ => hp, loop := nofun }
  | resumed hr hp =>
    have hlt := h.inRange hp
    cases hr with
    | writeable hpc | unfinished hpc =>
      refine { h with handIndex := nofun, clear := nofun, loop := ?_ }
      rintro _ _ ⟨⟩
      show 0 < s.unsent.length
      omega
  | @popped b head hpc hpop hlt =>
    refine ⟨h.rings.congr (.withNextAvail _ _) (.refl _), ?_, (at_pc hpc h).clear, h.inRange, nofun⟩
    rintro _ ⟨⟩
    exact hlt
  | short hpc hlt =>
    exact ⟨h.rings, nofun, nofun, absurd ((at_pc hpc h).clear trivial), nofun⟩
  | @copied hand frame hpc hw =>
    replace h := at_pc hpc h
    have hp : s.backend.lastPartialWriteLength = 0 := h.clear trivial
    obtain ⟨-, hlt, hlen', -⟩ := Passt.writeFrame_some hw
    refine { h with inRange := absurd hp, loop := ?_ }
    rintro _ _ ⟨⟩
    rw [length_unsent]
    show 0 < frame.length - (vnetHdrLen - passtHeaderLen + s.backend.lastPartialWriteLength)
    omega
  | @took job b size hpc hmore =>
    replace h := at_pc hpc h
    refine ⟨h.rings, ?_, ?_, h.inRange, ?_⟩
    · cases job <;> exact h.handIndex
    · cases job <;> exact h.clear
    · rintro _ _ ⟨⟩
      exact hmore
  | ended hpc hto hall =>
    cases hto with
    | writeable => exact ⟨h.rings, nofun, nofun, absurd rfl, nofun⟩
    | unfinished => exact ⟨h.rings, nofun, fun _ => rfl, absurd rfl, nofun⟩
  | frameEnded hpc hall hm =>
    exact ⟨h.rings.congr (.bumpUsed _) hm.layout, nofun, fun _ => rfl, absurd rfl, nofun⟩
  | @stopped job b pc answer hpc hto ha =>
    have hlt := h.loop job b hpc
    have hrange : vnetHdrLen - passtHeaderLen +
        (s.backend.lastPartialWriteLength + if answer = .eagain then b else 0) <
        s.frame.length := by
      split_ifs <;> omega
    cases hto with
    | writeableFailed | unfinishedFailed => exact ⟨h.rings, nofun, nofun, fun _ => hrange, nofun⟩
  | undone hpc =>
    exact ⟨h.rings.congr (.withNextAvail _ _) (.refl _), nofun, nofun, h.inRange, nofun⟩
  | @frameStopped hand b m hpc hne hm =>
    have hlt := h.loop _ b hpc
    refine ⟨h.rings.congr (.bumpUsed _) hm.layout, nofun, nofun, fun _ => ?_, nofun⟩
    show vnetHdrLen - passtHeaderLen + (s.backend.lastPartialWriteLength + b) < s.frame.length
    omega
  | left hpc hcfg hnext => exact ⟨h.rings.congr hcfg (.refl _), nofun, nofun, h.inRange, nofun⟩
  | @enabled b m hpc hm =>
    cases b <;> exact ⟨h.rings.congr (.refl _) hm.layout, nofun, nofun, h.inRange, nofun⟩
  | guest hm => exact { h with rings := h.rings.congr (.refl _) hm }

variable [LawfulGuestMemory M]

theorem addUsed_eq (h : s.queue.RingsMapped s.mem) {hand : TxHand}
    (hi : hand.head.index < s.queue.size) (next : TxPc) :
    ∃ m, UsedWritten s.queue s.mem m ∧ s.addUsed hand next = { s with
      queue := s.queue.bumpUsed
      mem := m
      pc := next
      used := hand.number :: s.used
      undecided := true } := by
  obtain ⟨m, hrun, hlayout, hout⟩ := addUsed_run h hi 0
  refine ⟨m, ⟨hlayout, hout⟩, ?_⟩
  unfold addUsed
  rw [hrun]

variable {job : TxJob} {b : ℕ} {e : TxStep}

theorem move_send_ok (h : s.Steady) (hpc : s.pc = .sending job b) (size : ℕ) :
    Move s (.send (.ok size)) (s.send job b (.ok size)) := by
  have hb := h.loop job b hpc
  show Move s _ (if b + ((s.unsent.drop b).take size).length < s.unsent.length then _ else _)
  by_cases hmore : b + ((s.unsent.drop b).take size).length < s.unsent.length
  · rw [if_pos hmore]
    exact .took hpc hmore
  · have hall := take_eq_self_of_full hb hmore
    rw [if_neg hmore, hall]
    cases job with
    | writeable => exact .ended hpc .writeable hall
    | unfinished => exact .ended hpc .unfinished hall
    | frame hand =>
      have hi : hand.head.index < s.queue.size := h.handIndex hand (by rw [hpc]; rfl)
      obtain ⟨m, hm, heq⟩ := addUsed_eq (s := { s with
        backend := ⟨0⟩, sent := s.sent ++ s.unsent.drop b, frame := [] }) h.rings hi (.popping true)
      show Move s _ (TxWorker.addUsed _ hand (.popping true))
      rw [heq]
      exact .frameEnded hpc hall hm

theorem move_send_eagain (h : s.Steady) (hpc : s.pc = .sending job b) :
    Move s (.send .eagain) (s.send job b .eagain) := by
  have hsend : s.send job b .eagain = TxWorker.sendDone
      { s with backend := ⟨s.backend.lastPartialWriteLength + b⟩ } job
      (.error (if b = 0 then .nothingWritten else .partialWrite)) := by
    unfold send Passt.sendTurn
    split_ifs with hb
    · simp only [append_nil]
      rw [hb]
      rfl
    · simp only [append_nil]
  have hok : ∀ size, SendAnswer.eagain ≠ .ok size := nofun
  rw [hsend]
  cases job with
  | writeable =>
    exact (Move.stopped hpc .writeableFailed hok :)
  | unfinished =>
    exact (Move.stopped hpc .unfinishedFailed hok :)
  | frame hand =>
    have hi : hand.head.index < s.queue.size := h.handIndex hand (by rw [hpc]; rfl)
    by_cases hb : b = 0
    · subst hb
      exact .undone hpc
    · rw [if_neg hb]
      obtain ⟨m, hm, heq⟩ := addUsed_eq (s := { s with
        backend := ⟨s.backend.lastPartialWriteLength + b⟩ }) h.rings hi (.leaving true)
      show Move s _ (TxWorker.addUsed _ hand (.leaving true))
      rw [heq]
      exact .frameStopped hpc hb hm

theorem move_leave (h : s.Steady) {b : Bool} (hpc : s.pc = .leaving b) :
    Move s .leave (s.leave b) := by
  unfold leave
  cases b with
  | false => exact .left hpc (.refl _) rfl
  | true =>
    obtain ⟨needed, q, hn⟩ := needsNotification_ok h.rings
    obtain ⟨hcfg, hnext⟩ := needsNotification_config hn
    simp only [if_true, hn]
    exact .left hpc hcfg hnext

theorem move_enable (h : s.Steady) (hpc : s.pc = .enabling) : Move s .enable s.enable := by
  obtain ⟨m, hset, hlayout, hout⟩ := setNotification_ok h.rings true
  have hmore := moreAvailable_eq (h.rings.congr (.refl _) hlayout)
  have hen : s.queue.enableNotification s.mem =
      (.ok (s.queue.availIdxField m != s.queue.nextAvail), m) := by
    unfold Queue.enableNotification
    rw [hset]
    simp only [hmore]
  unfold enable
  rw [hen]
  cases hb : s.queue.availIdxField m != s.queue.nextAvail <;> rw [hb] at hen
  · exact .enabled (b := false) hpc ⟨hlayout, hout⟩ hen
  · exact .enabled (b := true) hpc ⟨hlayout, hout⟩ hen

theorem pop_ne_none (h : s.Steady) : s.queue.pop s.mem ≠ none := by
  rw [pop_eq h.rings]
  split_ifs <;> exact some_ne_none _

theorem move_of_step (h : s.Steady) (hs : s.step e = some s') : Move s e s' := by
  cases e with
  | queueEvent =>
    obtain ⟨hpc, rfl⟩ := ite_some_none_eq_some.mp hs
    exact .kicked hpc
  | writeable =>
    obtain ⟨hpc, rfl⟩ := ite_some_none_eq_some.mp hs
    exact move_tryFinishWrite h (.writeable hpc)
  | disable =>
    obtain ⟨hpc, rfl⟩ := ite_some_none_eq_some.mp hs
    obtain ⟨m, hset, hlayout, hout⟩ := setNotification_ok h.rings false
    unfold disable Queue.disableNotification
    rw [hset]
    exact .disabled hpc ⟨hlayout, hout⟩
  | start =>
    obtain ⟨hpc, rfl⟩ := ite_some_none_eq_some.mp hs
    exact move_tryFinishWrite h (.unfinished hpc)
  | pop =>
    simp only [step] at hs
    split at hs <;> cases hs
    exact move_pop ‹_› (pop_ne_none h)
  | copy =>
    simp only [step] at hs
    split at hs <;> cases hs
    exact move_copy h ‹_›
  | send answer =>
    simp only [step] at hs
    split at hs <;> cases hs
    rename_i job b hpc
    by_cases hf : answer.Fine
    · cases answer with
      | ok size => exact move_send_ok h hpc size
      | eagain => exact move_send_eagain h hpc
      | epipe => exact absurd rfl hf.1
      | other => exact absurd rfl hf.2
    · exact move_send_error hpc hf
  | leave =>
    simp only [step] at hs
    split at hs <;> cases hs
    exact move_leave h ‹_›
  | enable =>
    obtain ⟨hpc, rfl⟩ := ite_some_none_eq_some.mp hs
    exact move_enable h hpc
  | guest addr bs =>
    cases hs
    exact .guest (LawfulGuestMemory.writeSlice_find s.mem addr bs)

end Rings

end Moves

end TxWorker

end Shelter.Net
