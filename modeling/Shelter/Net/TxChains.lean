import Shelter.Net.TxMoves

/-!
# What becomes of the chains of the transmit queue

Every chain that `process_tx` takes is to be put in the used ring once or put back, nothing is to
panic, and when `process_tx` returns after it has used a chain the need of an interrupt was looked
at. `accounted_iff`: this holds along a run exactly if every chain that is copied gives more than
the 12 bytes of the header, and the socket has no error while the frame of a chain is sent. A chain
with a descriptor the device may not read, or with a buffer outside guest memory, gives no bytes.
-/

open Bytes

namespace Shelter.Net

open Virtio Run List Option

variable {M : Type} [GuestMemory M]

/-- In the loops of `process_tx`, and where it decides about the interrupt. -/
def TxPc.inProcessTx : TxPc → Bool
  | .popping _ | .copying _ | .sending (.frame _) _ | .leaving _ => true
  | .idle | .disabling | .starting | .sending .writeable _ | .sending .unfinished _ | .enabling
  | .panicked => false

/-- Whether `process_tx` looks at the need of an interrupt, if no error comes between. -/
def TxPc.raises : TxPc → Bool
  | .popping b | .leaving b => b
  | .copying hand | .sending (.frame hand) _ => hand.raiseIrq
  | .idle | .disabling | .starting | .sending .writeable _ | .sending .unfinished _ | .enabling
  | .panicked => false

namespace TxWorker

/-- Nothing has panicked, every chain that is not in the hands of the worker was put in the used
ring or put back, once, and outside `process_tx` no decision about an interrupt is open. -/
structure Accounted (s : TxWorker M) : Prop where
  running : s.pc ≠ .panicked
  once : ∀ n < s.popped, (∀ h ∈ s.pc.hand, h.number ≠ n) →
    s.used.count n + s.undone.count n = 1
  decided : s.pc.inProcessTx = false → s.undecided = false

/-- The chain that is copied has a frame, and the socket takes it or is full. -/
def Orderly (s : TxWorker M) : TxStep → Prop
  | .copy => ∀ h ∈ s.pc.hand, vnetHdrLen < (chainBuffer s.mem h.head).length
  | .send answer => s.pc.hand ≠ none → answer.Fine
  | .queueEvent | .writeable | .disable | .start | .pop | .leave | .enable | .guest _ _ => True

instance (s : TxWorker M) (e : TxStep) : Decidable (s.Orderly e) := by
  unfold Orderly
  split <;> infer_instance

def places (s : TxWorker M) (n : ℕ) : ℕ :=
  s.used.count n + s.undone.count n + (s.pc.hand.map (·.number)).toList.count n

structure Inv (s : TxWorker M) : Prop where
  steady : s.Steady
  running : s.pc ≠ .panicked
  places : ∀ n, s.places n = if n < s.popped then 1 else 0
  pending : s.undecided = true → s.pc.raises = true

structure Fresh (s : TxWorker M) : Prop where
  rings : s.queue.RingsMapped s.mem
  idle : s.pc = .idle
  finished : s.backend.lastPartialWriteLength = 0
  popped : s.popped = 0
  used : s.used = []
  undone : s.undone = []
  decided : s.undecided = false

section Steps

variable {s s' : TxWorker M}

theorem raises_le_inProcessTx {pc : TxPc} (h : pc.raises = true) : pc.inProcessTx = true := by
  cases pc with
  | sending job b => cases job <;> first | rfl | cases h
  | popping | copying | leaving => rfl
  | idle | disabling | starting | enabling | panicked => cases h

theorem Inv.accounted (h : s.Inv) : s.Accounted where
  running := h.running
  once n hn hhand := by
    have hplaces := h.places n
    have hzero : (s.pc.hand.map (·.number)).toList.count n = 0 := by
      rw [count_eq_zero]
      intro hmem
      obtain ⟨hd, hhd, rfl⟩ := map_eq_some_iff.mp (mem_toList.mp hmem)
      exact hhand hd hhd rfl
    rw [if_pos hn, TxWorker.places, hzero, Nat.add_zero] at hplaces
    exact hplaces
  decided hout := by
    by_contra hne
    have hin := raises_le_inProcessTx (h.pending (by simpa using hne))
    cases hout.symm.trans hin

theorem Fresh.inv (h : s.Fresh) : s.Inv where
  steady := by
    refine ⟨h.rings, ?_, ?_, fun hne => absurd h.finished hne, ?_⟩ <;> rw [h.idle] <;> nofun
  running := by rw [h.idle]; nofun
  places n := by
    rw [TxWorker.places, h.idle, h.used, h.undone, h.popped]
    rfl
  pending hp := by rw [h.decided] at hp; cases hp

theorem Inv.places_popped (h : s.Inv) (hhand : s.pc.hand = none) (n : ℕ) :
    s.used.count n + s.undone.count n + [s.popped].count n = if n < s.popped + 1 then 1 else 0 := by
  have hplaces := h.places n
  rw [TxWorker.places, hhand] at hplaces
  exact count_next hplaces

theorem Inv.places_hand (h : s.Inv) {hand : TxHand} (hhand : s.pc.hand = some hand) (n : ℕ) :
    (hand.number :: s.used).count n + s.undone.count n = (if n < s.popped then 1 else 0) ∧
      s.used.count n + (hand.number :: s.undone).count n = if n < s.popped then 1 else 0 := by
  have hplaces := h.places n
  rw [TxWorker.places, hhand] at hplaces
  have hone : ((some hand).map (·.number)).toList.count n = [hand.number].count n := rfl
  have hcons : ∀ l : List ℕ, (hand.number :: l).count n = [hand.number].count n + l.count n := by
    intro l
    rw [← singleton_append, count_append]
  rw [hcons s.used, hcons s.undone]
  omega

theorem Inv.move (h : s.Inv) {e : TxStep} (hm : Move s e s') (ht : s'.Steady)
    (ho : s.Orderly e) : s'.Inv := by
  cases hm with
  | kicked hpc | disabled hpc | empty hpc | copied hpc =>
    exact { at_pc hpc h with steady := ht, running := nofun }
  | skipped hr hto =>
    cases hr with
    | writeable hpc | unfinished hpc =>
      cases hto
      exact { at_pc hpc h with steady := ht, running := nofun }
  | resumed hr =>
    cases hr with
    | writeable hpc | unfinished hpc => exact { at_pc hpc h with steady := ht, running := nofun }
  | popped hpc hpop hlt =>
    exact ⟨ht, nofun, h.places_popped (by rw [hpc]; rfl), (at_pc hpc h).pending⟩
  | @short hand hpc hlt => exact absurd (ho hand (by rw [hpc]; rfl)) hlt
  | @took job b size hpc =>
    cases job <;> exact { at_pc hpc h with steady := ht, running := nofun }
  | ended hpc hto | stopped hpc hto =>
    cases hto <;> exact { at_pc hpc h with steady := ht, running := nofun }
  | frameEnded hpc | frameStopped hpc =>
    exact ⟨ht, nofun, fun n => (h.places_hand (by rw [hpc]; rfl) n).1, fun _ => rfl⟩
  | undone hpc =>
    exact ⟨ht, nofun, fun n => (h.places_hand (by rw [hpc]; rfl) n).2, (at_pc hpc h).pending⟩
  | @broken hand b answer hpc ha => exact absurd (ho (by rw [hpc]; nofun)) ha
  | @left b q k hpc =>
    replace h := at_pc hpc h
    refine { h with steady := ht, running := nofun, pending := fun hu => ?_ }
    -- an open decision is made here, if there is one
    obtain ⟨hb, hu⟩ := Bool.and_eq_true_iff.mp hu
    have hb' : b = true := h.pending hu
    rw [hb'] at hb
    cases hb
  | @enabled b m hpc => cases b <;> exact { at_pc hpc h with steady := ht, running := nofun }
  | guest => exact { h with steady := ht }

/-- The other moves panic or lose the chain that is in the hands of the worker. -/
theorem not_accounted_move (h : s.Inv) {e : TxStep} (hm : Move s e s') (ho : ¬ s.Orderly e) :
    ¬ s'.Accounted := by
  have hsend : ∀ {answer : SendAnswer}, e = .send answer → s.pc.hand ≠ none ∧ ¬ answer.Fine := by
    rintro answer rfl
    exact Classical.not_imp.mp ho
  cases hm with
  | short hpc hlt => exact fun ha => ha.running rfl
  | @copied hand frame hpc hw =>
    refine absurd (fun hd hhd => ?_) ho
    rw [hpc] at hhd
    cases hhd
    exact (Passt.writeFrame_some hw).2.1
  | @broken hand b answer hpc ha =>
    intro hacc
    have hhand : s.pc.hand = some hand := by rw [hpc]; rfl
    have hplaces := h.places hand.number
    rw [TxWorker.places, hhand] at hplaces
    have hone : ((some hand).map (·.number)).toList.count hand.number = 1 :=
      count_singleton_self ..
    split_ifs at hplaces with hlt
    · have honce := hacc.once hand.number hlt nofun
      simp only at honce
      omega
    · omega
  | took | ended | frameEnded | undone | frameStopped => exact absurd ⟨nofun, nofun⟩ (hsend rfl).2
  | stopped hpc hto ha =>
    refine absurd ?_ (hsend rfl).1
    rw [hpc]
    cases hto <;> rfl
  | skipped hr | resumed hr => cases hr <;> exact absurd trivial ho
  | kicked | disabled | empty | popped | left | enabled | guest => exact absurd trivial ho

end Steps

/-- **The account of the chains.** In a run of the worker, the guest and the socket, every state is
accounted for exactly if no chain without a frame is copied and the socket has no error while the
frame of a chain is sent. -/
theorem accounted_iff [LawfulGuestMemory M] {s₀ s : TxWorker M} {steps : List TxStep}
    (h : s₀.Fresh) (hr : run step s₀ steps = some s) :
    Along step (fun s e => ∀ s', s.step e = some s' → s'.Accounted) s₀ steps ↔
      Along step Orderly s₀ steps := by
  constructor
  · intro hacc
    refine along_of_invariant (P := Inv) (fun s e s' hinv hacc hs => ?_) h.inv hacc hr
    have hm := move_of_step hinv.steady hs
    have ho : s.Orderly e := by
      by_contra hno
      exact not_accounted_move hinv hm hno (hacc s' hs)
    exact ⟨hinv.move hm (hinv.steady.move hm) ho, ho⟩
  · intro ho
    refine along_of_invariant (P := Inv) (fun s e s' hinv ho hs => ?_) h.inv ho hr
    have hm := move_of_step hinv.steady hs
    have hinv' := hinv.move hm (hinv.steady.move hm) ho
    refine ⟨hinv', fun t ht => ?_⟩
    cases hs.symm.trans ht
    exact hinv'.accounted

/-! ## Runs -/

def new (q : Queue) (m : M) : TxWorker M where
  queue := q
  mem := m
  backend := ⟨0⟩
  frame := []
  pc := .idle
  interrupts := 0
  sent := []
  popped := 0
  used := []
  undone := []
  undecided := false

theorem new_fresh {q : Queue} {m : M} (h : q.RingsMapped m) : (new q m).Fresh :=
  ⟨h, rfl, rfl, rfl, rfl, rfl, rfl⟩

def twoChains (d₀ d₁ : Descriptor) : TxWorker FlatMemory :=
  new smallQueue ((((smallMemory.put 0 d₀.toBytes).put 16 d₁.toBytes).put 0x82 (leBytes 2 2)).put
    0x84 (leBytes 2 0 ++ leBytes 2 1))

theorem twoChains_fresh (d₀ d₁ : Descriptor) : (twoChains d₀ d₁).Fresh :=
  new_fresh (smallQueue_rings.congr (.refl _) fun _ => rfl)

/-- The frames of both chains are sent, the second one in two pieces. -/
def sendBoth : List TxStep :=
  [.queueEvent, .disable, .start, .pop, .copy, .send (.ok 6), .pop, .copy, .send (.ok 3),
    .send .eagain, .leave, .enable, .writeable, .send (.ok 3)]

theorem accounted_both :
    (∃ s, run step (twoChains ⟨0x100, 14, 0, 0⟩ ⟨0x110, 14, 0, 0⟩) sendBoth = some s) ∧
      Along step (fun s e => ∀ s', s.step e = some s' → s'.Accounted)
        (twoChains ⟨0x100, 14, 0, 0⟩ ⟨0x110, 14, 0, 0⟩) sendBoth := by
  have hr : ∃ s, run step (twoChains ⟨0x100, 14, 0, 0⟩ ⟨0x110, 14, 0, 0⟩) sendBoth = some s :=
    isSome_iff_exists.mp (by decide +kernel)
  obtain ⟨s, hs⟩ := hr
  exact ⟨⟨s, hs⟩, (accounted_iff (twoChains_fresh _ _) hs).mpr (by decide +kernel)⟩

/-- A chain that the device may not read, one that is too short and one outside guest memory each
stop the worker for good. With an error of the socket the second chain is neither used nor put back,
and the driver hears nothing of the first. -/
theorem chains_lost :
    (∀ d ∈ [⟨0x100, 14, 2, 0⟩, ⟨0x100, 12, 0, 0⟩, ⟨0x1000, 14, 0, 0⟩],
      ∃ s, run step (twoChains d d) [.queueEvent, .disable, .start, .pop, .copy] = some s ∧
        s.pc = .panicked ∧ ¬ s.Accounted) ∧
    ∃ s, run step (twoChains ⟨0x100, 14, 0, 0⟩ ⟨0x110, 14, 0, 0⟩)
        [.queueEvent, .disable, .start, .pop, .copy, .send (.ok 6), .pop, .copy, .send .epipe] =
          some s ∧
      s.pc = .enabling ∧ s.popped = 2 ∧ s.used = [0] ∧ s.undone = [] ∧ s.undecided = true ∧
      ¬ s.Accounted := by
  constructor
  · have hpanic : ∀ d ∈ [⟨0x100, 14, 2, 0⟩, ⟨0x100, 12, 0, 0⟩, ⟨0x1000, 14, 0, 0⟩], ∃ s,
        run step (twoChains d d) [.queueEvent, .disable, .start, .pop, .copy] = some s ∧
          s.pc = .panicked := by decide +kernel
    intro d hd
    obtain ⟨s, hs, hpc⟩ := hpanic d hd
    exact ⟨s, hs, hpc, fun h => h.running hpc⟩
  · obtain ⟨s, hs, hpc, hpopped, hused, hundone, hopen⟩ : ∃ s,
        run step (twoChains ⟨0x100, 14, 0, 0⟩ ⟨0x110, 14, 0, 0⟩) [.queueEvent, .disable, .start,
          .pop, .copy, .send (.ok 6), .pop, .copy, .send .epipe] = some s ∧ s.pc = .enabling ∧
        s.popped = 2 ∧ s.used = [0] ∧ s.undone = [] ∧ s.undecided = true := by decide +kernel
    refine ⟨s, hs, hpc, hpopped, hused, hundone, hopen, fun h => ?_⟩
    have hdecided := h.decided (by rw [hpc]; rfl)
    cases hopen.symm.trans hdecided

end TxWorker

end Shelter.Net
