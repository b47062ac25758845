import Mathlib.Data.Prod.Lex
import Shelter.Net.TxStream
import Shelter.Virtio.Service

/-!
# The end of the transmit loop

`process_tx_loop` starts over as long as the available index says that there is more. While the
guest adds nothing, each turn has fewer chains before it, unless the socket refuses to take bytes:
then the chain is put back, or the rest of a frame is kept, and the loop tries again at once.
`returned_iff`: the loop ends whatever the socket does just if there is no chain in the queue, and
with a given socket just if that does not refuse again and again. `never_returned`: it may.
-/

open Bytes

namespace Shelter.Net

open Virtio Run

variable {M : Type} [GuestMemory M]

/-- The next step of `process_tx_loop`, if the socket has this answer. -/
def TxPc.next (answer : SendAnswer) : TxPc → Option TxStep
  | .idle | .panicked => none
  | .disabling => some .disable
  | .starting => some .start
  | .popping _ => some .pop
  | .copying _ => some .copy
  | .sending _ _ => some (.send answer)
  | .leaving _ => some .leave
  | .enabling => some .enable

/-- A bound for the steps before the worker is idle, if `left` chains are in the queue, apart from
those in which the socket takes a part of a frame. -/
def TxPc.weight (left : ℕ) : TxPc → ℕ
  | .idle | .panicked => 0
  | .enabling => if left = 0 then 1 else 3 * left + 7
  | .leaving _ => if left = 0 then 2 else 3 * left + 8
  | .popping _ => 3 * left + 3
  | .sending (.frame _) _ | .sending .unfinished _ => 3 * left + 4
  | .copying _ | .starting => 3 * left + 5
  | .disabling => 3 * left + 6
  | .sending .writeable _ => 3 * left + 7

def SendAnswer.Takes : SendAnswer → Prop
  | .ok size => 0 < size
  | .eagain | .epipe | .other => False

/-- A part of a frame is never taken with a count of 0. -/
def SendAnswer.Proper (answer : SendAnswer) : Prop := answer ≠ .ok 0

namespace TxWorker

def service (s : TxWorker M) : ServiceState M Unit := ⟨s.queue, s.mem, ()⟩

/-- `process_tx_loop` after `n` steps, against a socket with these answers. -/
def loop (answers : ℕ → SendAnswer) (s : TxWorker M) : ℕ → TxWorker M
  | 0 => s
  | n + 1 =>
    let t := loop answers s n
    ((t.pc.next (answers n)).bind t.step).getD t

/-- In the loop that began in `s`, `k` more chains have been taken than put back. -/
structure Looping (s : TxWorker M) (k : ℕ) (t : TxWorker M) : Prop where
  steady : t.Steady
  after : s.service.After k t.service
  hand : t.pc.hand ≠ none → k ≠ 0
  short : t.pc = .panicked → t.frame.length ≤ vnetHdrLen ∧ k ≠ 0

/-- The answer brings the loop that began in `s` nearer to its end. -/
def Helps (s : TxWorker M) (answer : SendAnswer) : Prop :=
  answer.Takes ∨ s.service.pending = 0 ∧ answer.Proper

def rank (s : TxWorker M) (k : ℕ) (t : TxWorker M) : ℕ ×ₗ ℕ :=
  toLex (t.pc.weight (s.service.pending - k), t.unsent.length - t.pc.bytesSend)

section Steps

variable {s t t' : TxWorker M} {k n : ℕ} {e : TxStep} {answer : SendAnswer}
  {answers : ℕ → SendAnswer}

theorem loop_next {t : TxWorker M} (he : (loop answers s n).pc.next (answers n) = some e)
    (hstep : (loop answers s n).step e = some t) : loop answers s (n + 1) = t := by
  simp only [loop, he, Option.bind_some, hstep, Option.getD_some]

theorem rank_lt {k' : ℕ} (h : t'.pc.weight (s.service.pending - k') <
    t.pc.weight (s.service.pending - k)) : rank s k' t' < rank s k t :=
  Prod.Lex.toLex_lt_toLex.mpr (.inl h)

theorem Looping.goto (h : Looping s k t) {pc : TxPc} (ht : Steady { t with pc })
    (hhand : pc.hand = none) (hp : pc ≠ .panicked) : Looping s k { t with pc } :=
  ⟨ht, h.after, absurd hhand, fun h => absurd h hp⟩

theorem Looping.wrote (h : Looping s k t) (hs : s.service.Placed) (ht : t'.Steady)
    (hcfg : Queue.SameConfig t.queue t'.queue) (hnext : t'.queue.nextAvail = t.queue.nextAvail)
    (hm : UsedWritten t.queue t.mem t'.mem) (hhand : t'.pc.hand = none)
    (hp : t'.pc ≠ .panicked) : Looping s k t' :=
  ⟨ht, (h.after.write hs hm.layout hm.outside).requeue hcfg hnext, absurd hhand,
    fun h => absurd h hp⟩

variable [LawfulGuestMemory M]

theorem step_next (h : t.Steady) (he : t.pc.next answer = some e) :
    ∃ t', t.step e = some t' ∧ Move t e t' ∧ t'.Steady := by
  have hstep : ∃ t', t.step e = some t' := by
    unfold TxPc.next at he
    split at he <;> cases he <;> rename_i hpc <;> rw [step, hpc] <;> exact ⟨_, rfl⟩
  obtain ⟨t', hstep⟩ := hstep
  have hm := move_of_step h hstep
  exact ⟨t', hstep, hm, h.move hm⟩

/-- A step keeps the account, and comes nearer to the end if the answer helps. -/
theorem Looping.move (h : Looping s k t) (hs : s.service.Placed) (hacc : s.service.Accepted)
    (he : t.pc.next answer = some e) (hm : Move t e t') (ht : t'.Steady) :
    ∃ k', Looping s k' t' ∧ ((∀ a, e = .send a → s.Helps a) → rank s k' t' < rank s k t) := by
  have hidle : t.pc ≠ .idle := fun hpc => by rw [hpc] at he; cases he
  have hpop := h.after.pop_eq hs
  have hle := h.after.le
  have hne (hk : k ≠ 0) : s.service.pending ≠ 0 := by omega
  cases hm with
  | kicked hpc => exact absurd hpc hidle
  | guest =>
    unfold TxPc.next at he
    split at he <;> cases he
  | disabled hpc hm =>
    exact ⟨k, h.wrote hs ht (.refl _) rfl hm rfl nofun,
      fun _ => rank_lt (by simp [hpc, TxPc.weight])⟩
  | skipped hr hto =>
    cases hr with
    | writeable hpc => exact absurd hpc hidle
    | unfinished hpc =>
      cases hto
      exact ⟨k, h.goto ht rfl nofun, fun _ => rank_lt (by simp [hpc, TxPc.weight])⟩
  | resumed hr =>
    cases hr with
    | writeable hpc => exact absurd hpc hidle
    | unfinished hpc =>
      exact ⟨k, h.goto ht rfl nofun, fun _ => rank_lt (by simp [hpc, TxPc.weight])⟩
  | empty hpc hnone =>
    -- every head is accepted, so the queue is empty
    have hk : k = s.service.pending := by
      by_contra hk
      obtain ⟨c, hc⟩ := Option.isSome_iff_exists.mp (hacc k (lt_of_le_of_ne hle hk))
      rw [if_neg hk, hc] at hpop
      cases hpop.symm.trans hnone
    exact ⟨k, h.goto ht rfl nofun, fun _ => rank_lt (by simp [hpc, TxPc.weight, hk])⟩
  | popped hpc hsome =>
    have hk : k ≠ s.service.pending := by
      intro hk
      rw [if_pos hk] at hpop
      cases hpop.symm.trans hsome
    refine ⟨k + 1, ⟨ht, h.after.popped hk, fun _ => k.succ_ne_zero, nofun⟩, fun _ => rank_lt ?_⟩
    simp only [hpc, TxPc.weight]
    omega
  | short hpc hshort =>
    exact ⟨k, ⟨ht, h.after, absurd rfl, fun _ => ⟨not_lt.mp hshort, (at_pc hpc h).hand nofun⟩⟩,
      fun _ => rank_lt (by simp [hpc, TxPc.weight])⟩
  | copied hpc =>
    exact ⟨k, ⟨ht, h.after, (at_pc hpc h).hand, nofun⟩,
      fun _ => rank_lt (by simp [hpc, TxPc.weight])⟩
  | @took job b size hpc hmore =>
    have hb := h.steady.loop job b hpc
    have hhand := (at_pc hpc h).hand
    refine ⟨k, ⟨ht, h.after, by cases job <;> exact hhand, nofun⟩, fun hhelps => ?_⟩
    have hpos : 0 < size := (hhelps _ rfl).elim id fun hproper =>
      Nat.pos_of_ne_zero fun h0 => hproper.2 (congrArg _ h0)
    refine Prod.Lex.toLex_lt_toLex.mpr (.inr ⟨?_, ?_⟩) <;> rw [hpc]
    · cases job <;> rfl
    · show t.unsent.length - (b + _) < t.unsent.length - b
      rw [List.length_take, List.length_drop] at hmore ⊢
      omega
  | ended hpc hto =>
    cases hto with
    | writeable | unfinished =>
      exact ⟨k, ⟨ht, h.after, absurd rfl, nofun⟩, fun _ => rank_lt (by simp [hpc, TxPc.weight])⟩
  | frameEnded hpc _ hm =>
    exact ⟨k, h.wrote hs ht (.bumpUsed _) rfl hm rfl nofun,
      fun _ => rank_lt (by simp [hpc, TxPc.weight])⟩
  | @stopped _ _ _ answer hpc hto ha =>
    have hno : ¬ answer.Takes := by
      cases answer with
      | ok size => exact absurd rfl (ha size)
      | eagain | epipe | other => exact id
    cases hto with
    | writeableFailed | unfinishedFailed =>
      refine ⟨k, ⟨ht, h.after, absurd rfl, nofun⟩, fun hhelps => rank_lt ?_⟩
      simp [hpc, TxPc.weight, ((hhelps _ rfl).resolve_left hno).1]
  | undone hpc =>
    have hk := (at_pc hpc h).hand nofun
    obtain ⟨j, rfl⟩ := Nat.exists_eq_add_one_of_ne_zero hk
    exact ⟨j, ⟨ht, h.after.undone, absurd rfl, nofun⟩,
      fun hhelps => absurd ((hhelps _ rfl).resolve_left id).1 (hne hk)⟩
  | frameStopped hpc _ hm =>
    exact ⟨k, h.wrote hs ht (.bumpUsed _) rfl hm rfl nofun,
      fun hhelps => absurd ((hhelps _ rfl).resolve_left id).1 (hne ((at_pc hpc h).hand nofun))⟩
  | @broken _ _ answer hpc ha =>
    refine ⟨k, h.goto ht rfl nofun, fun hhelps =>
      absurd ((hhelps _ rfl).resolve_left ?_).1 (hne ((at_pc hpc h).hand nofun))⟩
    cases answer with
    | ok | eagain => exact absurd ⟨nofun, nofun⟩ ha
    | epipe | other => exact id
  | left hpc hcfg hnext =>
    refine ⟨k, ⟨ht, h.after.requeue hcfg hnext, absurd rfl, nofun⟩, fun _ => rank_lt ?_⟩
    simp only [hpc, TxPc.weight]
    split_ifs <;> omega
  | @enabled b m hpc hm hen =>
    obtain ⟨m', hen', -⟩ := h.after.enable hs
    have hb : b = decide (k ≠ s.service.pending) := by
      cases hen.symm.trans hen'
      rfl
    cases b with
    | false | true =>
      refine ⟨k, h.wrote hs ht (.refl _) rfl hm rfl nofun, fun _ => rank_lt ?_⟩
      simp at hb
      simp only [hpc, TxPc.weight, Bool.false_eq_true, if_true, if_false]
      split_ifs <;> omega

theorem Looping.succ (h : Looping s k (loop answers s n)) (hs : s.service.Placed)
    (hacc : s.service.Accepted) (he : (loop answers s n).pc.next (answers n) = some e) :
    ∃ k', Looping s k' (loop answers s (n + 1)) ∧ ((∀ a, e = .send a → s.Helps a) →
      rank s k' (loop answers s (n + 1)) < rank s k (loop answers s n)) := by
  obtain ⟨t', hstep, hm, ht⟩ := step_next h.steady he
  rw [loop_next he hstep]
  exact h.move hs hacc he hm ht

theorem looping (h : s.Steady) (hpc : s.pc = .disabling) (hs : s.service.Placed)
    (hacc : s.service.Accepted) (n : ℕ) : ∃ k, Looping s k (loop answers s n) := by
  induction n with
  | zero => exact ⟨0, h, .refl _, by rw [loop, hpc]; exact absurd rfl, by rw [loop, hpc]; nofun⟩
  | succ n ih =>
    obtain ⟨k, hk⟩ := ih
    cases he : (loop answers s n).pc.next (answers n) with
    | none =>
      rw [loop, he]
      exact ⟨k, hk⟩
    | some e =>
      obtain ⟨k', hk', -⟩ := hk.succ hs hacc he
      exact ⟨k', hk'⟩

/-- The loop ends if from some step on all answers help. -/
theorem ends (h : s.Steady) (hpc : s.pc = .disabling) (hs : s.service.Placed)
    (hacc : s.service.Accepted) (hn : ∀ i ≥ n, (loop answers s i).pc.isSending = true →
      s.Helps (answers i)) :
    ∃ j k, Looping s k (loop answers s j) ∧
      ((loop answers s j).pc = .idle ∨ (loop answers s j).pc = .panicked) := by
  -- the rank goes down
  have hends : ∀ (x : ℕ ×ₗ ℕ) (i k : ℕ), n ≤ i → Looping s k (loop answers s i) →
      rank s k (loop answers s i) = x → ∃ j, (loop answers s j).pc.next (answers j) = none := by
    intro x
    induction x using WellFoundedLT.induction with
    | ind x ih =>
      rintro i k hi hk rfl
      cases he : (loop answers s i).pc.next (answers i) with
      | none => exact ⟨i, he⟩
      | some e =>
        obtain ⟨k', hk', hlt⟩ := hk.succ hs hacc he
        refine ih _ (hlt ?_) (i + 1) k' (Nat.le_succ_of_le hi) hk' rfl
        rintro a rfl
        have hhelps := hn i hi
        unfold TxPc.next at he
        split at he <;> cases he
        exact hhelps (by simp only [*, TxPc.isSending])
  obtain ⟨k, hk⟩ := looping h hpc hs hacc n
  obtain ⟨j, hj⟩ := hends _ n k (le_refl n) hk rfl
  obtain ⟨k', hk'⟩ : ∃ k', Looping s k' (loop answers s j) := looping h hpc hs hacc j
  refine ⟨j, k', hk', ?_⟩
  cases hp : (loop answers s j).pc with
  | idle => exact .inl rfl
  | panicked => exact .inr rfl
  | _ => rw [hp] at hj; cases hj

omit [LawfulGuestMemory M] in
theorem loop_ended (h : (loop answers s n).pc = .idle ∨ (loop answers s n).pc = .panicked) (i : ℕ) :
    loop answers s (n + i) = loop answers s n := by
  induction i with
  | zero => rfl
  | succ i ih =>
    rw [← Nat.add_assoc, loop, ih]
    rcases h with h | h <;> rw [h] <;> rfl

/-- In the loop against a socket that is always full, while no chain has been sent. -/
structure Waiting (s t : TxWorker M) : Prop where
  steady : t.Steady
  after : s.service.After (if t.pc.hand = none then 0 else 1) t.service
  busy : t.pc ≠ .idle
  unsent : ∀ job b, t.pc = .sending job b → b = 0 ∧ job ≠ .writeable

theorem Waiting.move (h : Waiting s t) (hs : s.service.Placed) (hacc : s.service.Accepted)
    (hpend : s.service.pending ≠ 0) (he : t.pc.next .eagain = some e) (hm : Move t e t')
    (ht : t'.Steady) : t'.pc = .panicked ∨ Waiting s t' := by
  have hafter {pc} (hpc : t.pc = pc) (hhand : pc.hand = none) : s.service.After 0 t.service := by
    have := h.after
    rwa [hpc, if_pos hhand] at this
  cases hm with
  | kicked hpc => exact absurd hpc h.busy
  | guest =>
    unfold TxPc.next at he
    split at he <;> cases he
  | disabled hpc hm =>
    exact .inr ⟨ht, (hafter hpc rfl).write hs hm.layout hm.outside, nofun, nofun⟩
  | skipped hr hto =>
    cases hr with
    | writeable hpc => exact absurd hpc h.busy
    | unfinished hpc =>
      cases hto
      exact .inr ⟨ht, hafter hpc rfl, nofun, nofun⟩
  | resumed hr =>
    cases hr with
    | writeable hpc => exact absurd hpc h.busy
    | unfinished hpc => exact .inr ⟨ht, hafter hpc rfl, nofun, by rintro _ _ ⟨⟩; exact ⟨rfl, nofun⟩⟩
  | empty hpc hnone =>
    obtain ⟨c, hc⟩ := Option.isSome_iff_exists.mp (hacc 0 (Nat.pos_of_ne_zero hpend))
    have hpop := (hafter hpc rfl).pop_eq hs
    rw [if_neg hpend.symm, hc] at hpop
    cases hpop.symm.trans hnone
  | popped hpc => exact .inr ⟨ht, (hafter hpc rfl).popped hpend.symm, nofun, nofun⟩
  | short => exact .inl rfl
  | copied hpc =>
    exact .inr ⟨ht, (at_pc hpc h).after, nofun, by rintro _ _ ⟨⟩; exact ⟨rfl, nofun⟩⟩
  | took hpc | ended hpc | frameEnded hpc =>
    rw [hpc] at he
    cases he
  | stopped hpc hto =>
    cases hto with
    | writeableFailed => exact absurd rfl (h.unsent _ _ hpc).2
    | unfinishedFailed => exact .inr ⟨ht, hafter hpc rfl, nofun, nofun⟩
  | undone hpc => exact .inr ⟨ht, (at_pc hpc h).after.undone, nofun, nofun⟩
  | frameStopped hpc hb => exact absurd (h.unsent _ _ hpc).1 hb
  | broken hpc ha =>
    rw [hpc] at he
    cases he
    exact absurd ⟨nofun, nofun⟩ ha
  | left hpc hcfg hnext => exact .inr ⟨ht, (hafter hpc rfl).requeue hcfg hnext, nofun, nofun⟩
  | enabled hpc hm hen =>
    obtain ⟨m', hen', -⟩ := (hafter hpc rfl).enable hs
    rw [decide_eq_true hpend.symm] at hen'
    cases hen.symm.trans hen'
    exact .inr ⟨ht, (hafter hpc rfl).write hs hm.layout hm.outside, nofun, nofun⟩

theorem full_never_idle (h : s.Steady) (hpc : s.pc = .disabling) (hs : s.service.Placed)
    (hacc : s.service.Accepted) (hpend : s.service.pending ≠ 0) (n : ℕ) :
    (loop (fun _ => .eagain) s n).pc ≠ .idle := by
  have hall : (loop (fun _ => .eagain) s n).pc = .panicked ∨
      Waiting s (loop (fun _ => .eagain) s n) := by
    induction n with
    | zero => exact .inr ⟨h, by rw [loop, hpc]; exact .refl _, by rw [loop, hpc]; nofun,
        by rw [loop, hpc]; nofun⟩
    | succ n ih =>
      cases he : (loop (fun _ => .eagain) s n).pc.next .eagain with
      | none =>
        rw [loop, he]
        exact ih
      | some e =>
        have hw := ih.resolve_left fun hp => by rw [hp] at he; cases he
        obtain ⟨t', hstep, hm, ht'⟩ := step_next hw.steady he
        rw [loop_next he hstep]
        exact hw.move hs hacc hpend he hm ht'
  rcases hall with hp | hw
  · rw [hp]
    nofun
  · exact hw.busy

/-- **The end of the transmit loop.** While the guest adds no chains, `process_tx_loop` returns
whatever the socket does exactly if there is no chain in the queue. Against one socket it returns,
or panics at a chain that has no frame, exactly if the socket does not refuse again and again. -/
theorem returned_iff (h : s.Steady) (hpc : s.pc = .disabling) (hs : s.service.Placed)
    (hacc : s.service.Accepted) :
    ((∀ answers : ℕ → SendAnswer, (∀ n, (answers n).Proper) →
        ∃ n, (loop answers s n).pc = .idle) ↔ s.service.pending = 0) ∧
    ∀ answers : ℕ → SendAnswer,
      (∃ n, (loop answers s n).pc = .idle ∨ (loop answers s n).pc = .panicked ∧
        (loop answers s n).frame.length ≤ vnetHdrLen) ↔
      ∃ n, ∀ i ≥ n, (loop answers s i).pc.isSending = true → (answers i).Takes := by
  refine ⟨⟨fun hall => ?_, fun h0 answers hproper => ?_⟩, fun answers => ⟨?_, ?_⟩⟩
  · by_contra hpend
    obtain ⟨n, hn⟩ := hall (fun _ => .eagain) fun _ => nofun
    exact full_never_idle h hpc hs hacc hpend n hn
  · obtain ⟨j, k, hk, hend⟩ := ends (n := 0) h hpc hs hacc fun i _ _ => .inr ⟨h0, hproper i⟩
    refine ⟨j, hend.resolve_right fun hp => ?_⟩
    have hle := hk.after.le
    have hne := (hk.short hp).2
    omega
  · rintro ⟨n, hn⟩
    have hend : (loop answers s n).pc = .idle ∨ (loop answers s n).pc = .panicked :=
      hn.imp_right And.left
    refine ⟨n, fun i hi hsend => ?_⟩
    rw [← Nat.add_sub_cancel' hi, loop_ended hend] at hsend
    rcases hend with hp | hp <;> rw [hp] at hsend <;> cases hsend
  · rintro ⟨n, hn⟩
    obtain ⟨j, k, hk, hend⟩ := ends h hpc hs hacc fun i hi hsend => .inl (hn i hi hsend)
    exact ⟨j, hend.imp_right fun hp => ⟨hp, (hk.short hp).1⟩⟩

end Steps

/-- Two chains with a frame each, and the guest has kicked the queue. -/
def twoKicked : TxWorker FlatMemory :=
  { twoChains ⟨0x100, 14, 0, 0⟩ ⟨0x110, 14, 0, 0⟩ with pc := .disabling }

theorem twoKicked_steady : twoKicked.Steady :=
  (twoChains_fresh _ _).inv.steady.move (.kicked rfl)

theorem placed_of_rings {s : TxWorker FlatMemory} (h : s.queue.RingsMapped s.mem)
    (hq : Queue.SameConfig smallQueue s.queue) : s.service.Placed where
  rings := h
  apartAvail := by
    rw [service, hq.usedRing, hq.size, hq.availRing]
    exact smallQueue_apart
  apartTable := by
    rw [service, hq.usedRing, hq.size, hq.descTable, hq.actualSize]
    exact apart_of_le (by decide)

theorem twoKicked_accepted : twoKicked.service.Accepted := by
  unfold ServiceState.Accepted
  decide +kernel

theorem returned_iff_both :
    (∃ n, (loop (fun _ => .ok 100) twoKicked n).pc = .idle ∨
      (loop (fun _ => .ok 100) twoKicked n).pc = .panicked ∧
        (loop (fun _ => .ok 100) twoKicked n).frame.length ≤ vnetHdrLen) ∧
    ¬ ∀ answers : ℕ → SendAnswer, (∀ n, (answers n).Proper) →
      ∃ n, (loop answers twoKicked n).pc = .idle := by
  obtain ⟨hall, hone⟩ := returned_iff twoKicked_steady rfl
    (placed_of_rings twoKicked_steady.rings (.refl _)) twoKicked_accepted
  refine ⟨(hone _).mpr ⟨0, fun _ _ _ => Nat.zero_lt_succ 99⟩, fun h => ?_⟩
  exact absurd (hall.mp h) (by decide +kernel)

/-- The socket takes three bytes of the first frame and is full from then on: the worker tries to
send the rest again and again, and does not return. -/
theorem never_returned : ∃ s,
    run step twoKicked
        [.disable, .start, .pop, .copy, .send (.ok 3), .send .eagain, .leave, .enable] = some s ∧
      ∀ n, (loop (fun _ => .eagain) s n).pc ≠ .idle := by
  obtain ⟨s, hs, hpc, hacc, hpend, hq⟩ : ∃ s, run step twoKicked
      [.disable, .start, .pop, .copy, .send (.ok 3), .send .eagain, .leave, .enable] = some s ∧
        s.pc = .disabling ∧ (∀ k < s.service.pending, (s.service.chainAt k).isSome = true) ∧
        s.service.pending = 1 ∧
        s.queue = { smallQueue with nextAvail := 1, nextUsed := 1, numAdded := 1 } := by
    decide +kernel
  have hsteady : s.Steady := run_invariant (P := Steady)
    (fun _ _ _ h hs => h.move (move_of_step h hs)) twoKicked_steady hs
  exact ⟨s, hs, full_never_idle hsteady hpc
    (placed_of_rings hsteady.rings (by rw [hq]; exact ⟨rfl, rfl, rfl, rfl, rfl, rfl⟩)) hacc
    (by omega)⟩

end TxWorker

end Shelter.Net
