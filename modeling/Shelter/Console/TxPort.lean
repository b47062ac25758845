import Shelter.Console.ProcessTx
import Shelter.Lib.Run

/-!
# What the transmit thread delivers

The thread of `process_tx` with the guest and the output around it. `popped` and `used` are the
chains that were taken and those that `add_used` put in the ring, in order; a chain that is put back
and taken again is in `popped` twice.
-/

open Bytes

namespace Shelter.Console

open Virtio Run List

variable {M : Type} [GuestMemory M]

/-- Where a thread of a port is: at the top of its loop, waiting to be unparked, before a look at
the `stop` flag, or at its end. -/
inductive ThreadPc
  | running
  | parked
  | checking
  | exited
  | panicked
  deriving DecidableEq, Repr

/-- A chain that was taken: its head, its readable bytes, and whether the output failed on it. -/
structure TxChain where
  index : U16
  bytes : List Byte
  failed : Bool
  deriving DecidableEq, Repr

structure TxPort (M : Type) where
  mem : M
  queue : Queue
  pc : ThreadPc
  sent : List Byte
  signals : ℕ
  popped : List TxChain
  used : List U16

/-- The thread takes a turn with these answers of the output, or is unparked with or without the
`stop` flag; the guest writes. -/
inductive TxStep
  | turn (answers : List Answer)
  | unpark (stop : Bool)
  | guest (addr : ℕ) (bs : List Byte)
  deriving DecidableEq, Repr

def Turn.pc : Turn → ThreadPc
  | .empty => .parked
  | .panicked => .panicked
  | .putBack | .used | .rejected | .dropped => .running

namespace TxPort

def record (m : M) (failed : Bool) (head : DescriptorChain) : TxChain :=
  ⟨head.index, chainBytes m (head.intoIter.collect m), failed⟩

variable (s : TxPort M)

def after (t : TxTurn M) : TxPort M where
  mem := t.mem
  queue := t.queue
  pc := t.turn.pc
  sent := t.output.sent
  signals := t.output.signals
  popped := s.popped ++ (t.head.map (record s.mem t.output.failed)).toList
  used := s.used ++ if t.turn = .used then (t.head.map (·.index)).toList else []

def take [TryAccess M] (s : TxPort M) (answers : List Answer) : Option (TxTurn M) :=
  processTx s.mem s.queue (.toAnswer s.sent s.signals answers)

def step [TryAccess M] (s : TxPort M) : TxStep → Option (TxPort M)
  | .turn answers => if s.pc = .running then (s.take answers).map s.after else none
  | .unpark stop =>
    if s.pc = .parked then some { s with pc := if stop then .exited else .running } else none
  | .guest addr bs => some { s with mem := (writeSlice s.mem addr bs).1 }

/-- Every chain that was taken is in the used ring, once and in order, and the output has received
the bytes of those on which it did not fail. -/
structure Delivered (s : TxPort M) : Prop where
  running : s.pc ≠ .panicked
  used : s.used = s.popped.map (·.index)
  sent : s.sent = (s.popped.filter (!·.failed)).flatMap (·.bytes)

instance : Decidable s.Delivered :=
  decidable_of_iff (s.pc ≠ .panicked ∧ s.used = s.popped.map (·.index) ∧
      s.sent = (s.popped.filter (!·.failed)).flatMap (·.bytes))
    ⟨fun h => ⟨h.1, h.2.1, h.2.2⟩, fun h => ⟨h.1, h.2, h.3⟩⟩

/-- The chain that the next turn takes out of the queue. -/
def nextChain : Option DescriptorChain :=
  match s.queue.pop s.mem with
  | some (some head, _) => some head
  | _ => none

/-- The chain of a turn that is taken is complete and has bytes, and the output takes all that it is
given. -/
def Orderly [TryAccess M] (s : TxPort M) : TxStep → Prop
  | .turn answers => (s.step (.turn answers)).isSome = true → ∀ head ∈ s.nextChain,
      takesAll s.mem answers (offered s.mem (head.intoIter.collect s.mem)) = true ∧
        Complete s.mem (head.intoIter.collect s.mem) ∧
        chainBytes s.mem (head.intoIter.collect s.mem) ≠ []
  | .unpark _ | .guest _ _ => True

instance [TryAccess M] (s : TxPort M) (e : TxStep) : Decidable (s.Orderly e) := by
  unfold Orderly
  split <;> infer_instance

structure Fresh (s : TxPort M) : Prop where
  rings : s.queue.RingsMapped s.mem
  pc : s.pc = .running
  sent : s.sent = []
  popped : s.popped = []
  used : s.used = []

structure Inv (s : TxPort M) : Prop where
  rings : s.queue.RingsMapped s.mem
  delivered : s.Delivered

section Steps

variable {s s' : TxPort M}

theorem step_cases [TryAccess M] {e : TxStep} (hs : s.step e = some s') :
    (∃ answers t, e = .turn answers ∧ s.pc = .running ∧ s.take answers = some t ∧
        s' = s.after t) ∨
      (∃ stop, e = .unpark stop ∧
        s' = { s with pc := if stop = true then .exited else .running }) ∨
      ∃ addr bs, e = .guest addr bs ∧ s' = { s with mem := (writeSlice s.mem addr bs).1 } := by
  cases e with
  | turn answers =>
    obtain ⟨hpc, hs⟩ := Option.ite_none_right_eq_some.mp hs
    obtain ⟨t, ht, rfl⟩ := Option.map_eq_some_iff.mp hs
    exact .inl ⟨answers, t, rfl, hpc, ht, rfl⟩
  | unpark stop =>
    obtain ⟨-, ⟨⟩⟩ := Option.ite_none_right_eq_some.mp hs
    exact .inr (.inl ⟨stop, rfl, rfl⟩)
  | guest addr bs => exact .inr (.inr ⟨addr, bs, rfl, (Option.some.inj hs).symm⟩)

omit [GuestMemory M] in
theorem delivered_snoc (h : s.Delivered) {c : TxChain} (hpopped : s'.popped = s.popped ++ [c]) :
    s'.Delivered ↔ s'.pc ≠ .panicked ∧ s'.used = s.used ++ [c.index] ∧
      s'.sent = s.sent ++ if c.failed = true then [] else c.bytes := by
  have hused : s'.popped.map (·.index) = s.used ++ [c.index] := by
    rw [hpopped, map_append, ← h.used]
    rfl
  have hsent : (s'.popped.filter (!·.failed)).flatMap (·.bytes) =
      s.sent ++ if c.failed = true then [] else c.bytes := by
    rw [hpopped, filter_append, flatMap_append, ← h.sent]
    congr 1
    cases hc : c.failed with
    | true => rw [filter_cons_of_neg (by simp [hc]), if_pos rfl]; rfl
    | false =>
      rw [filter_cons_of_pos (by simp [hc]), if_neg (by simp), filter_nil,
        flatMap_singleton]
  constructor
  · intro h'
    exact ⟨h'.running, h'.used.trans hused, h'.sent.trans hsent⟩
  · rintro ⟨h1, h2, h3⟩
    exact ⟨h1, h2.trans hused.symm, h3.trans hsent.symm⟩

theorem nextChain_of_pop {head : Option DescriptorChain} {q : Queue}
    (hpop : s.queue.pop s.mem = some (head, q)) : s.nextChain = head := by
  unfold nextChain
  rw [hpop]
  cases head <;> rfl

theorem delivered_after [LawfulGuestMemory M] [TryAccess M] [LawfulTryAccess M] (h : s.Inv)
    {answers : List Answer} {t : TxTurn M} (ht : s.take answers = some t) :
    (s.after t).Delivered ↔ ∀ head ∈ s.nextChain,
      takesAll s.mem answers (offered s.mem (head.intoIter.collect s.mem)) = true ∧
      Complete s.mem (head.intoIter.collect s.mem) ∧
      chainBytes s.mem (head.intoIter.collect s.mem) ≠ [] := by
  have hd := h.delivered
  cases processTx_cases h.rings ht with
  | empty hpop =>
    rw [nextChain_of_pop hpop]
    refine ⟨fun _ head hhead => absurd hhead (by simp), fun _ => ?_⟩
    unfold after
    simp only [Option.map_none, Option.toList_none, append_nil, reduceCtorEq, if_false]
    exact { hd with running := nofun }
  | @panicked head o' hpop hsend =>
    rw [nextChain_of_pop hpop]
    constructor
    · intro h'
      exact absurd rfl h'.running
    · intro hall
      obtain ⟨w, ⟨⟩, _⟩ := (sendDescs_iff hsend rfl rfl).mpr (hall head rfl)
  | @putBack head o' hpop hsend =>
    rw [nextChain_of_pop hpop]
    have hlen : s.used ≠ s.used ++ [head.index] := by simp
    constructor
    · intro h'
      have hused := ((delivered_snoc hd (c := record s.mem o'.failed head) rfl).mp h').2.1
      exact absurd ((append_nil _).symm.trans hused) hlen
    · intro hall
      obtain ⟨w, hw, hne, _⟩ := (sendDescs_iff hsend rfl rfl).mpr (hall head rfl)
      exact absurd (Option.some.inj hw).symm hne
  | @used head o' w m' hpop hsend hw hadd hlayout =>
    rw [nextChain_of_pop hpop, delivered_snoc hd (c := record s.mem o'.failed head) rfl]
    constructor
    · rintro ⟨_, _, hsent⟩ head' ⟨⟩
      exact (sendDescs_iff hsend rfl rfl).mp ⟨w, rfl, hw, hsent⟩
    · intro hall
      obtain ⟨_, _, _, hsent⟩ := (sendDescs_iff hsend rfl rfl).mpr (hall head rfl)
      exact ⟨by nofun, rfl, hsent⟩

theorem Fresh.inv (h : s.Fresh) : s.Inv where
  rings := h.rings
  delivered := ⟨by rw [h.pc]; nofun, by rw [h.used, h.popped]; rfl, by rw [h.sent, h.popped]; rfl⟩

theorem rings_step [LawfulGuestMemory M] [TryAccess M] {e : TxStep} (h : s.queue.RingsMapped s.mem)
    (hs : s.step e = some s') : s'.queue.RingsMapped s'.mem := by
  rcases step_cases hs with ⟨answers, t, _, _, ht, rfl⟩ | ⟨stop, _, rfl⟩ | ⟨addr, bs, _, rfl⟩
  · exact (processTx_cases h ht).rings h
  · exact h
  · exact h.congr (.refl _) (LawfulGuestMemory.writeSlice_find s.mem addr bs)

theorem delivered_step [LawfulGuestMemory M] [TryAccess M] [LawfulTryAccess M] (h : s.Inv)
    (e : TxStep) :
    (∀ s', s.step e = some s' → s'.Delivered) ↔ s.Orderly e := by
  constructor
  · intro hall
    cases e with
    | turn answers =>
      intro hsome
      obtain ⟨s', hs⟩ := Option.isSome_iff_exists.mp hsome
      have hdel := hall s' hs
      rcases step_cases hs with ⟨_, t, ⟨⟩, -, ht, rfl⟩ | ⟨_, ⟨⟩, -⟩ | ⟨_, _, ⟨⟩, -⟩
      exact (delivered_after h ht).mp hdel
    | unpark | guest => trivial
  · intro ho s' hs
    rcases step_cases hs with ⟨answers, t, rfl, hpc, ht, rfl⟩ | ⟨stop, _, rfl⟩ | ⟨addr, bs, _, rfl⟩
    · exact (delivered_after h ht).mpr (ho (Option.isSome_iff_exists.mpr ⟨_, hs⟩))
    · exact { h.delivered with running := by cases stop <;> nofun }
    · exact { h.delivered with }

end Steps

/-- **Delivery.** In every run of the thread, the guest and the output, everything is delivered
after each turn exactly if each chain is complete and has bytes and the output takes all that it is
given. A turn waits for nothing but answers of the output. -/
theorem delivered_iff [LawfulGuestMemory M] [TryAccess M] [LawfulTryAccess M] {s : TxPort M}
    (h : s.Fresh) (steps : List TxStep) :
    (Along step (fun s e => ∀ s', s.step e = some s' → s'.Delivered) s steps ↔
      Along step Orderly s steps) ∧
    ∀ s', run step s steps = some s' → s'.pc = .running →
      ∃ n, ∀ answers : List Answer, n ≤ answers.countP (· != .wouldBlock) →
        ∃ s'', s'.step (.turn answers) = some s'' := by
  refine ⟨?_, fun s' _ hpc => ?_⟩
  · exact along_congr (P := Inv) (fun s e hinv => delivered_step hinv e)
      (fun s e s' hinv hdel hs => ⟨rings_step hinv.rings hs, hdel s' hs⟩) h.inv steps
  · obtain ⟨n, hn⟩ := processTx_returns s'.mem s'.queue
    refine ⟨n, fun answers hle => ?_⟩
    obtain ⟨t, ht⟩ := hn (.toAnswer s'.sent s'.signals answers) hle
    refine ⟨s'.after t, ?_⟩
    rw [step, if_pos hpc]
    exact Option.map_eq_some_iff.mpr ⟨t, ht, rfl⟩

/-! ## Runs -/

def new (q : Queue) (m : M) : TxPort M where
  mem := m
  queue := q
  pc := .running
  sent := []
  signals := 0
  popped := []
  used := []

variable (ds : List Descriptor)

/-- One chain of up to four descriptors is available; the bytes from 0x100 on are 1, 2, 3 and so
on. -/
def oneChain : TxPort FlatMemory :=
  new smallQueue (((smallMemory.put 0 (ds.flatMap Descriptor.toBytes)).put 0x82 (leBytes 2 1)).put
    0x100 ((List.range 16).map fun i => BitVec.ofNat 8 (i + 1)))

theorem oneChain_fresh : (oneChain ds).Fresh :=
  ⟨smallQueue_rings.congr (.refl _) fun _ => rfl, rfl, rfl, rfl, rfl⟩

def mixedChain : TxPort FlatMemory :=
  oneChain [⟨0x100, 4, 1, 1⟩, ⟨0x108, 2, 1, 2⟩, ⟨0x110, 8, 2, 0⟩]

/-- The output takes the first descriptor in two pieces, with a pause between them. -/
def piecewise : List TxStep :=
  [.turn [.wrote 3, .wouldBlock, .wrote 9, .wrote 2], .turn [], .unpark true]

theorem delivered_pieces :
    (run step mixedChain piecewise).map (fun s => (s.sent, s.used, s.pc)) =
        some ([1, 2, 3, 4, 9, 10], [0], .exited) ∧
      Along step (fun s e => ∀ s', s.step e = some s' → s'.Delivered) mixedChain piecewise :=
  ⟨by decide +kernel, (delivered_iff (oneChain_fresh _) _).1.mpr (by decide +kernel)⟩

/-- The turns end with the thread, the bytes, the chains taken and the chains used as given, and not
everything is delivered. -/
def Mishandles (turns : List (List Answer))
    (res : ThreadPc × List Byte × List U16 × List U16) : Prop :=
  ∃ s ∈ run step (oneChain ds) (turns.map .turn),
    (s.pc, s.sent, s.popped.map (·.index), s.used) = res ∧ ¬ s.Delivered

/-- A chain of a device-writable descriptor, or one that begins with an empty descriptor, is taken
again and again and never used. Readable bytes behind an empty or a device-writable descriptor are
not sent. After a short write and an error the chain is put back and its first bytes are sent twice;
after an error of the first descriptor the second one is sent. The thread panics if the output takes
nothing of the rest of a buffer, and if a buffer reaches out of guest memory. -/
theorem chains_mishandled :
    Mishandles [⟨0x100, 4, 2, 0⟩] [[], [], []] (.running, [], [0, 0, 0], []) ∧
    Mishandles [⟨0x100, 0, 1, 1⟩, ⟨0x100, 4, 0, 0⟩] [[.wrote 0], [.wrote 0], [.wrote 0]]
      (.running, [], [0, 0, 0], []) ∧
    Mishandles [⟨0x100, 2, 1, 1⟩, ⟨0x100, 0, 1, 2⟩, ⟨0x104, 2, 0, 0⟩] [[.wrote 2, .wrote 0]]
      (.running, [1, 2], [0], [0]) ∧
    Mishandles [⟨0x100, 2, 1, 1⟩, ⟨0x108, 4, 3, 2⟩, ⟨0x104, 2, 0, 0⟩] [[.wrote 2]]
      (.running, [1, 2], [0], [0]) ∧
    Mishandles [⟨0x100, 4, 0, 0⟩] [[.wrote 2, .error], [.wrote 4]]
      (.running, [1, 2, 1, 2, 3, 4], [0, 0], [0]) ∧
    Mishandles [⟨0x100, 2, 1, 1⟩, ⟨0x104, 2, 0, 0⟩] [[.error, .wrote 2]]
      (.running, [5, 6], [0], [0]) ∧
    Mishandles [⟨0x100, 4, 0, 0⟩] [[.wrote 2, .wrote 0]] (.panicked, [1, 2], [0], []) ∧
    Mishandles [⟨0x1fe, 4, 0, 0⟩] [[.wrote 4]] (.panicked, [0, 0], [0], []) := by
  unfold Mishandles
  refine ⟨?_, ?_, ?_, ?_, ?_, ?_, ?_, ?_⟩ <;> decide +kernel

end TxPort

end Shelter.Console
