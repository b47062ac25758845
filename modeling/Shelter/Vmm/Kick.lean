import Shelter.Vmm.Vcpu

/-!
# Kicks and events

A kick is to make the thread look at its channel: the handler sets `immediate_exit`, the next
`KVM_RUN` returns, the thread clears the flag and calls `try_recv`. It calls it once, however many
kicks have set the flag and however many events are queued.

`kicks_consumed` says when no event stays behind: whenever the flag is cleared, no queued event but
the first has had its kick. `kicks_consumed_one_at_a_time` gives a VMM that sees to it, by sending
an event only to an empty channel. `kick_left_behind` is a run of another one.
-/

namespace Shelter.Vmm

open List Option Run

variable (v : Vcpu)

def Caught : Prop := ∀ x ∈ v.queue, x.1 ∉ v.delivered
  deriving Decidable

/-- When the flag is cleared, no event but the first in the channel has had its kick. -/
def ClearsOne (e : Step) : Prop :=
  e = .clear → ∀ x ∈ v.queue.tail, x.1 ∉ v.delivered
  deriving Decidable

/-- When the thread enters the guest, and is not to come back at once, it has missed no kick. -/
def EntersCaught (e : Step) : Prop :=
  e = .enter → v.immediateExit = false → Caught v

/-- Between the clearing of the flag and `try_recv` the first event is still to be taken. -/
structure KickInv (v : Vcpu) : Prop where
  receiving : v.immediateExit = false → v.pc = .receiving →
    ∀ x ∈ v.queue.tail, x.1 ∉ v.delivered
  elsewhere : v.immediateExit = false → v.pc ≠ .receiving → Caught v
  kicks : ∀ n ∈ v.kicks, n < v.count
  unkicked : ∀ n ∈ v.unkicked, n < v.count
  delivered : ∀ n ∈ v.delivered, n < v.count

section Step

variable {v v' : Vcpu}

theorem KickInv.move (h : KickInv v) {pc : Pc} {queue : List (ℕ × VcpuEvent)} {log : List Obs}
    (hpc : pc ≠ .receiving) (hqueue : v.immediateExit = false → ∀ x ∈ queue, x.1 ∉ v.delivered) :
    KickInv { v with pc := pc, queue := queue, log := log } where
  __ := h
  receiving _ hr := absurd hr hpc
  elsewhere hflag _ := hqueue hflag

theorem next_ne_receiving (x : Option VcpuResponse × StateFn) : Pc.next x ≠ .receiving := by
  rcases x with ⟨_ | _, _⟩ <;> exact Pc.noConfusion

theorem afterRun_ne_receiving (result : Except Errno VcpuExit) :
    Pc.afterRun result ≠ .receiving := by
  unfold Pc.afterRun
  split <;> exact Pc.noConfusion

theorem kickInv_send (h : KickInv v) (e : VcpuEvent) :
    KickInv { v with
      queue := v.queue ++ [(v.count, e)]
      count := v.count + 1
      unkicked := v.count :: v.unkicked } where
  receiving hflag hpc x hx := by
    -- the new event is the first one, or it comes after the others
    rcases hq : v.queue with _ | ⟨y, rest⟩ <;> rw [hq] at hx
    · exact absurd hx not_mem_nil
    · have hrest := h.receiving hflag hpc
      rw [hq] at hrest
      exact forall_mem_snoc hrest (fun hd => absurd (h.delivered _ hd) (lt_irrefl _)) x hx
  elsewhere hflag hpc := forall_mem_snoc (h.elsewhere hflag hpc) fun hd =>
    absurd (h.delivered _ hd) (lt_irrefl _)
  kicks n hn := Nat.lt_succ_of_lt (h.kicks n hn)
  unkicked n hn := by
    rcases mem_cons.mp hn with rfl | hn
    · exact Nat.lt_succ_self _
    · exact Nat.lt_succ_of_lt (h.unkicked n hn)
  delivered n hn := Nat.lt_succ_of_lt (h.delivered n hn)

theorem kickInv_kill (h : KickInv v) {n : ℕ} (hn : n ∈ v.unkicked) (ok : Bool) :
    KickInv { v with
      unkicked := v.unkicked.erase n
      kicks := if ok then n :: v.kicks else v.kicks } where
  __ := h
  kicks k hk := by
    split_ifs at hk
    · rcases mem_cons.mp hk with rfl | hk
      · exact h.unkicked _ hn
      · exact h.kicks k hk
    · exact h.kicks k hk
  unkicked k hk := h.unkicked k (mem_of_mem_erase hk)

theorem kickInv_deliver (h : KickInv v) {n : ℕ} (hn : n ∈ v.kicks) :
    KickInv { v with
      kicks := v.kicks.erase n
      delivered := n :: v.delivered
      immediateExit := true } where
  receiving := nofun
  elsewhere := nofun
  kicks k hk := h.kicks k (mem_of_mem_erase hk)
  unkicked := h.unkicked
  delivered k hk := by
    rcases mem_cons.mp hk with rfl | hk
    · exact h.kicks _ hn
    · exact h.delivered k hk

theorem kickInv_tryRecv (h : KickInv v) (hpc : v.pc = .receiving) : KickInv v.tryRecv := by
  unfold Vcpu.tryRecv
  split
  next n e rest hqueue =>
    refine h.move (next_ne_receiving _) fun hflag x hx => ?_
    exact h.receiving hflag hpc x (by rw [hqueue]; exact hx)
  next hqueue =>
    refine h.move (next_ne_receiving _) fun hflag x hx => ?_
    rw [hqueue] at hx
    exact absurd hx not_mem_nil

theorem kickInv_recv (h : KickInv v) (hpc : v.pc = .state .paused) (hs : v.recv = some v') :
    KickInv v' := by
  have hcaught : v.immediateExit = false → Caught v := by
    intro hflag
    apply h.elsewhere hflag
    rw [hpc]
    exact Pc.noConfusion
  unfold Vcpu.recv at hs
  split at hs
  next n e rest hqueue =>
    cases hs
    refine h.move (next_ne_receiving _) fun hflag x hx => ?_
    exact hcaught hflag x (by rw [hqueue]; exact mem_cons_of_mem _ hx)
  next hqueue =>
    split_ifs at hs
    cases hs
    exact h.move (next_ne_receiving _) hcaught

theorem kickInv_step {e : Step} (h : KickInv v) (hc : ClearsOne v e) (hs : v.step e = some v') :
    KickInv v' := by
  cases e with
  | send e =>
    obtain ⟨_, ⟨⟩⟩ := ite_none_right_eq_some.mp hs
    exact kickInv_send h e
  | kill n ok =>
    obtain ⟨hn, ⟨⟩⟩ := ite_none_right_eq_some.mp hs
    exact kickInv_kill h hn ok
  | dropHandle =>
    obtain ⟨_, ⟨⟩⟩ := ite_none_right_eq_some.mp hs
    exact ⟨h.receiving, h.elsewhere, h.kicks, h.unkicked, h.delivered⟩
  | deliver n =>
    obtain ⟨hn, ⟨⟩⟩ := ite_none_right_eq_some.mp hs
    exact kickInv_deliver h hn
  | recv =>
    simp only [Vcpu.step, ite_none_right_eq_some] at hs
    exact kickInv_recv h hs.1 hs.2
  | enter =>
    obtain ⟨hpc, ⟨⟩⟩ := ite_none_right_eq_some.mp hs
    exact h.move Pc.noConfusion fun hflag => h.elsewhere hflag (by rw [hpc]; exact Pc.noConfusion)
  | exit result =>
    obtain ⟨hpc, ⟨⟩⟩ := ite_none_right_eq_some.mp hs
    exact h.move (afterRun_ne_receiving result) fun hflag =>
      h.elsewhere hflag (by rw [hpc]; exact Pc.noConfusion)
  | clear =>
    obtain ⟨_, ⟨⟩⟩ := ite_none_right_eq_some.mp hs
    exact ⟨fun _ _ => hc rfl, fun _ hne => absurd rfl hne, h.kicks, h.unkicked, h.delivered⟩
  | tryRecv =>
    obtain ⟨hpc, ⟨⟩⟩ := ite_none_right_eq_some.mp hs
    exact kickInv_tryRecv h hpc
  | reply =>
    simp only [Vcpu.step] at hs
    split at hs
    next r next hpc =>
      have hcaught : v.immediateExit = false → Caught v := by
        intro hflag
        apply h.elsewhere hflag
        rw [hpc]
        exact Pc.noConfusion
      cases hs
      unfold Vcpu.reply
      split_ifs
      all_goals exact h.move Pc.noConfusion hcaught
    next => cases hs

theorem kickInv_start : KickInv Vcpu.start := by
  constructor <;> simp [Vcpu.start, Caught]

theorem entersCaught_of_inv {e : Step} (h : KickInv v) (hs : v.step e = some v') :
    EntersCaught v e := by
  rintro rfl hflag
  simp only [Vcpu.step, ite_none_right_eq_some] at hs
  apply h.elsewhere hflag
  rw [hs.1]
  exact Pc.noConfusion

end Step

section Runs

variable {steps : List Step} {v : Vcpu}

theorem kickInv_entersCaught {v v' : Vcpu} {e : Step} (h : KickInv v) (hc : ClearsOne v e)
    (hs : v.step e = some v') : KickInv v' ∧ EntersCaught v e :=
  ⟨kickInv_step h hc hs, entersCaught_of_inv h hs⟩

/-- **Kicks and events.** In every interleaving in which no queued event but the first has had its
kick when the flag is cleared, the thread enters the guest with a clear flag only if every event
whose kick was delivered has been consumed. -/
theorem kicks_consumed (hrun : Run.run Vcpu.step Vcpu.start steps = some v)
    (hclear : Run.Along Vcpu.step ClearsOne Vcpu.start steps) :
    Run.Along Vcpu.step EntersCaught Vcpu.start steps :=
  Run.along_of_invariant (fun _ _ _ => kickInv_entersCaught) kickInv_start hclear hrun

/-- The VMM sends an event only when the channel is empty. -/
def SendsToEmpty (v : Vcpu) (e : Step) : Prop := ∀ event, e = .send event → v.queue = []

theorem queue_short {v v' : Vcpu} {e : Step} (h : v.queue.length ≤ 1) (hc : SendsToEmpty v e)
    (hs : v.step e = some v') : v'.queue.length ≤ 1 := by
  cases e with
  | send event =>
    obtain ⟨_, ⟨⟩⟩ := ite_none_right_eq_some.mp hs
    simp [hc event rfl]
  | kill | dropHandle | deliver | enter | exit | clear =>
    obtain ⟨_, ⟨⟩⟩ := ite_none_right_eq_some.mp hs
    exact h
  | recv =>
    obtain ⟨_, hs⟩ := ite_none_right_eq_some.mp hs
    unfold Vcpu.recv at hs
    split at hs
    next hqueue =>
      cases hs
      rw [hqueue, length_cons] at h
      exact Nat.le_of_succ_le h
    next =>
      split_ifs at hs
      cases hs
      exact h
  | tryRecv =>
    obtain ⟨_, ⟨⟩⟩ := ite_none_right_eq_some.mp hs
    unfold Vcpu.tryRecv
    split
    next hqueue =>
      rw [hqueue, length_cons] at h
      exact Nat.le_of_succ_le h
    next => exact h
  | reply =>
    simp only [Vcpu.step] at hs
    split at hs <;> cases hs
    unfold Vcpu.reply
    split_ifs <;> exact h

/-- A VMM that sends to an empty channel only meets the condition of `kicks_consumed`. -/
theorem kicks_consumed_one_at_a_time (hrun : Run.run Vcpu.step Vcpu.start steps = some v)
    (hsend : Run.Along Vcpu.step SendsToEmpty Vcpu.start steps) :
    Run.Along Vcpu.step EntersCaught Vcpu.start steps := by
  have hclear : Run.Along Vcpu.step ClearsOne Vcpu.start steps := by
    refine Run.along_of_invariant (P := fun v => v.queue.length ≤ 1)
      (fun v e v' h hc hs => ⟨queue_short h hc hs, fun _ x hx => ?_⟩) (Nat.zero_le 1) hsend hrun
    rcases hq : v.queue with _ | ⟨y, rest⟩ <;> rw [hq] at h hx
    · cases hx
    · rw [length_eq_zero_iff.mp (Nat.le_zero.mp (Nat.le_of_succ_le_succ h))] at hx
      cases hx
  exact Run.along_of_invariant (fun _ _ _ => kickInv_entersCaught) kickInv_start hclear hrun

end Runs

/-- The session of a vCPU that is resumed, paused and resumed again. -/
theorem kicks_consumed_session :
    ∃ v, Run.run Vcpu.step Vcpu.start session = some v ∧
      Run.Along Vcpu.step EntersCaught Vcpu.start session := by
  obtain ⟨v, hv⟩ : ∃ v, Run.run Vcpu.step Vcpu.start session = some v :=
    isSome_iff_exists.mp (by decide +kernel)
  exact ⟨v, hv, kicks_consumed hv (by decide +kernel)⟩

/-- Two events, both with their kicks, before the thread looks: it takes the first one, responds and
goes back into the guest with the flag clear and the second one, a `Pause`, in the channel. -/
def twoKicks : List Step :=
  [.send .resume, .kill 0 true, .deliver 0, .recv, .reply, .enter, .exit (.error .eintr), .clear,
    .tryRecv, .enter, .send .resume, .kill 1 true, .send .pause, .kill 2 true, .deliver 1,
    .deliver 2, .exit (.error .eintr), .clear, .tryRecv, .reply]

theorem kick_left_behind :
    ∃ v v', Run.run Vcpu.step Vcpu.start twoKicks = some v ∧ v.step .enter = some v' ∧
      v.immediateExit = false ∧ v.queue = [(2, .pause)] ∧ 2 ∈ v.delivered ∧
      ¬ EntersCaught v .enter := by
  obtain ⟨v, hv, henter, hflag, hqueue, hmem⟩ : ∃ v,
      Run.run Vcpu.step Vcpu.start twoKicks = some v ∧ (v.step .enter).isSome = true ∧
        v.immediateExit = false ∧ v.queue = [(2, .pause)] ∧ 2 ∈ v.delivered := by decide +kernel
  obtain ⟨v', hv'⟩ := isSome_iff_exists.mp henter
  refine ⟨v, v', hv, hv', hflag, hqueue, hmem, fun h => ?_⟩
  exact h rfl hflag (2, .pause) (by rw [hqueue]; exact mem_singleton_self _) hmem

end Shelter.Vmm
