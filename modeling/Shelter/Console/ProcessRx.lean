import Shelter.Console.ProcessTx

/-!
# The receive side of a console port

`process_rx` takes a chain of the receive queue and reads the input of the port into its writable
descriptors, until the input has nothing more for the moment or has ended. A turn of the loop ends
with the chain in the used ring, or put back if nothing was read. At the end of the input a chain
without a byte is neither used nor put back.

For the rings a turn of either side is one of a few moves (`QueueTurn`).
-/

open Bytes

namespace Shelter.Console

open Virtio Queue

variable {M : Type} [GuestMemory M]

/-- What `read_volatile` of the input answers. No bytes are the end of the input. -/
inductive InputAnswer
  | read (bs : List Byte)
  | wouldBlock
  | error
  deriving DecidableEq, Repr

/-- The input of a port, with its answers to come and the memory it is read into. -/
structure Input (M : Type) where
  mem : M
  answers : List InputAnswer
  eof : Bool

/-- The closure of `read_to_desc`. -/
def readPiece (i : Input M) (len addr : ℕ) : Option (Option ℕ × Input M) :=
  match i.answers with
  | [] => none
  | .read bs :: rest =>
    some (some (bs.take len).length,
      { mem := (writeSlice i.mem addr (bs.take len)).1
        answers := rest
        eof := i.eof || (bs.take len).isEmpty })
  | .wouldBlock :: rest => some (some 0, { i with answers := rest })
  | .error :: rest => some (none, { i with answers := rest })

def readToDesc [TryAccess M] (d : DescriptorChain) (i : Input M) : Option (Option ℕ × Input M) :=
  tryAccess i.mem readPiece d.len.toNat d.addr.toNat i

/-- The loop over the descriptors from the first writable one on; the result is `bytes_read`. The
links are read as the loop comes to them, from the memory as it is then. -/
def receiveDescs [TryAccess M] : ℕ → DescIter → (skip : Bool) → ℕ → Input M → Option (ℕ × Input M)
  | 0, _, _, bytesRead, i => some (bytesRead, i)
  | fuel + 1, it, skip, bytesRead, i =>
    match it.next i.mem with
    | (none, _) => some (bytesRead, i)
    | (some d, it') =>
      if skip && d.isReadOnly then receiveDescs fuel it' true bytesRead i
      else
        match readToDesc d i with
        | none => none
        | some (none, i') => receiveDescs fuel it' false bytesRead i'
        | some (some n, i') =>
          if n = 0 then some (bytesRead, i') else receiveDescs fuel it' false (bytesRead + n) i'

/-- What a turn of `process_rx` leaves. -/
structure RxTurn (M : Type) where
  mem : M
  queue : Queue
  turn : Turn
  eof : Bool

/-- A turn of the loop of `process_rx`. -/
def processRx [TryAccess M] (m : M) (q : Queue) (answers : List InputAnswer) : Option (RxTurn M) :=
  match q.pop m with
  | none => some ⟨m, q, .panicked, false⟩
  | some (none, q') => some ⟨m, q', .empty, false⟩
  | some (some head, q') =>
    match receiveDescs (head.ttl.toNat + 1) head.intoIter true 0 ⟨m, answers, false⟩ with
    | none => none
    | some (bytesRead, i) =>
      if bytesRead ≠ 0 then
        match q'.addUsed i.mem head.index (BitVec.ofNat 32 bytesRead) with
        | (.ok _, q'', m') => some ⟨m', q'', .used, i.eof⟩
        | (.error _, q'', m') => some ⟨m', q'', .rejected, i.eof⟩
      else if i.eof then some ⟨i.mem, q', .dropped, true⟩
      else some ⟨i.mem, q'.undoPop, .putBack, false⟩

/-- What a turn does to the counters of its queue, when the rings are mapped. -/
inductive QueueTurn (q : Queue) : Turn → Queue → Prop
  | empty : QueueTurn q .empty q
  | putBack : QueueTurn q .putBack q
  | used : QueueTurn q .used (popped q).bumpUsed
  | dropped : QueueTurn q .dropped (popped q)
  | panicked : QueueTurn q .panicked (popped q)

theorem QueueTurn.config {q q' : Queue} {turn : Turn} (h : QueueTurn q turn q') :
    q.SameConfig q' := by
  cases h with
  | empty | putBack => exact .refl q
  | used => exact (popped_config q).trans (.bumpUsed _)
  | dropped | panicked => exact popped_config q

/-- What a turn of either side does to its queue and to the memory. The driver finds the new index
after a chain was used. -/
structure TurnSpec (m : M) (q : Queue) (turn : Turn) (q' : Queue) (m' : M) : Prop where
  queue : QueueTurn q turn q'
  layout : SameLayout m m'
  index : turn = .used → q'.usedIdxField m' = q'.nextUsed

section Turns

variable {m : M} {q : Queue}

theorem TurnSpec.of_ne {turn : Turn} {q' : Queue} {m' : M} (hq : QueueTurn q turn q')
    (hm : SameLayout m m') (hne : turn ≠ .used) : TurnSpec m q turn q' m' :=
  ⟨hq, hm, fun h => absurd h hne⟩

variable [LawfulGuestMemory M]

theorem TurnSpec.of_addUsed {m₁ m' : M} {head : U16} {len : U32} (hrings : q.RingsMapped m)
    (hm : SameLayout m m₁) (hlt : head < q.size)
    (hadd : (popped q).addUsed m₁ head len = (.ok (), (popped q).bumpUsed, m')) :
    TurnSpec m q .used (popped q).bumpUsed m' := by
  have hrings₁ := hrings.congr (popped_config q) hm
  obtain ⟨m₂, hspec, hidx, _⟩ := addUsed_spec hrings₁ (show head < (popped q).size from hlt)
    len
  have hframe := (addUsed_frame hrings₁ head len).1
  rw [hadd] at hspec hframe
  obtain rfl := (Prod.mk.inj (Prod.mk.inj hspec).2).2
  exact ⟨.used, hm.trans hframe, fun _ => hidx⟩

theorem TxTurned.spec [TryAccess M] {o : Output} {t : TxTurn M} (hrings : q.RingsMapped m)
    (h : TxTurned m q o t) : TurnSpec m q t.turn t.queue t.mem := by
  cases h with
  | empty => exact .of_ne .empty (.refl m) nofun
  | panicked => exact .of_ne .panicked (.refl m) nofun
  | putBack => exact .of_ne .putBack (.refl m) nofun
  | used hpop _ _ hadd _ =>
    obtain hbad | ⟨c, hc, hlt⟩ := pop_cases hpop
    · cases hbad
    · obtain rfl := Option.some.inj (Prod.mk.inj hc).1
      exact .of_addUsed hrings (.refl m) hlt hadd

theorem readPiece_layout {i i' : Input M} {len addr : ℕ} {res : Option ℕ}
    (h : readPiece i len addr = some (res, i')) :
    SameLayout i.mem i'.mem ∧ ∀ k ∈ res, k ≤ len := by
  unfold readPiece at h
  split at h
  · cases h
  · cases h
    refine ⟨fun a => LawfulGuestMemory.writeSlice_find i.mem addr _ a, fun k hk => ?_⟩
    rw [← Option.some.inj hk]
    exact List.length_take_le _ _
  · cases h
    refine ⟨.refl _, fun k hk => ?_⟩
    rw [← Option.some.inj hk]
    exact Nat.zero_le _
  · cases h
    exact ⟨.refl _, fun k hk => by cases hk⟩

theorem readToDesc_layout [TryAccess M] [LawfulTryAccess M] {d : DescriptorChain} {i i' : Input M}
    {res : Option ℕ}
    (h : readToDesc d i = some (res, i')) : SameLayout i.mem i'.mem := by
  obtain ⟨total, cur, t, ht, hend⟩ :=
    tryAccess_cases (P := fun _ _ t => SameLayout i.mem t.mem)
      (fun total cur t r k t' ht _ hf =>
        ⟨(readPiece_layout hf).2 k rfl, fun _ => ht.trans (readPiece_layout hf).1⟩)
      (.refl i.mem) h
  generalize hpair : (res, i') = pair at hend
  cases hend with
  | failed _ _ hf | stopped _ _ hf =>
    cases hpair
    exact ht.trans (readPiece_layout hf).1
  | hole | full =>
    cases hpair
    exact ht

theorem receiveDescs_layout [TryAccess M] [LawfulTryAccess M] {fuel bytesRead n : ℕ}
    {it : DescIter} {skip : Bool} {i i' : Input M}
    (h : receiveDescs fuel it skip bytesRead i = some (n, i')) : SameLayout i.mem i'.mem := by
  induction fuel generalizing it skip bytesRead i with
  | zero =>
    cases h
    exact .refl _
  | succ fuel ih =>
    rw [receiveDescs] at h
    rcases hnext : it.next i.mem with ⟨_ | d, it'⟩ <;> simp only [hnext] at h
    · cases h
      exact .refl _
    · split_ifs at h with hskip
      · exact ih h
      · rcases hd : readToDesc d i with _ | ⟨_ | k, i₁⟩ <;> simp only [hd] at h
        · cases h
        · exact (readToDesc_layout hd).trans (ih h)
        · split_ifs at h with hzero
          · cases h
            exact readToDesc_layout hd
          · exact (readToDesc_layout hd).trans (ih h)

theorem processRx_spec [TryAccess M] [LawfulTryAccess M] (hrings : q.RingsMapped m)
    {answers : List InputAnswer} {t : RxTurn M}
    (h : processRx m q answers = some t) : TurnSpec m q t.turn t.queue t.mem := by
  unfold processRx at h
  obtain ⟨r, hpop⟩ := pop_isSome hrings
  obtain rfl | ⟨head, rfl, hlt⟩ := pop_cases hpop
  · simp only [hpop] at h
    cases h
    exact .of_ne .empty (.refl m) nofun
  · simp only [hpop] at h
    rw [show ({ q with nextAvail := q.nextAvail + 1 } : Queue) = popped q from rfl] at h
    rcases hr : receiveDescs (head.ttl.toNat + 1) head.intoIter true 0 ⟨m, answers, false⟩ with
      _ | ⟨bytesRead, i⟩
    · simp [hr] at h
    have hlayout : SameLayout m i.mem := receiveDescs_layout hr
    simp only [hr] at h
    split at h
    · have hrings' := hrings.congr (popped_config q) hlayout
      obtain ⟨m₁, m', hadd, _⟩ :=
        addUsed_ok hrings' (show head.index < (popped q).size from hlt)
          (BitVec.ofNat 32 bytesRead)
      simp only [hadd] at h
      cases h
      exact .of_addUsed hrings hlayout hlt hadd
    · cases heof : i.eof with
      | true =>
        rw [heof, if_pos rfl] at h
        cases h
        exact .of_ne .dropped hlayout nofun
      | false =>
        rw [heof, if_neg (by simp), undoPop_popped] at h
        cases h
        exact .of_ne .putBack hlayout nofun

end Turns

end Shelter.Console
