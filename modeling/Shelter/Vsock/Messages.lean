import Mathlib.Data.List.ReduceOption
import Shelter.Vsock.RxSystem

/-!
# The accounting of control messages

A message handed to `push_packet` goes into the next RX buffer or, if the guest has published none,
into the queue of the muxer, from which `process_stream_rx` takes it when there are buffers again.
That queue holds 256 messages and refuses more. A push does not look at it first, so a message may
go into a buffer while earlier ones wait.

`Ledger` says that every message is in exactly one place, and `messages_accounted` that this is so
after every access of every run. A chain that is no RX packet makes `push_packet` drop its message;
the condition `MessageSafe` excludes this case and nothing else.
-/

open Run

namespace Shelter.Vsock

open Virtio Carried List Option

variable {M : Type} [GuestMemory M]

/-! ## The ledger -/

/-- Where the messages are: `taken` are those in used buffers and the one in hand. -/
structure Ledger (pushed : List MuxerRx) (rxq : MuxerRxQ) (taken : List Carried)
    (between waiting accepted : List ℕ) (refused : List (ℕ × ℕ)) : Prop where
  once : (taken.map num ++ between ++ waiting ++ refused.map Prod.fst).Perm
    (List.range pushed.length)
  carried : ∀ c ∈ taken, pushed[c.num]? = some c.rx
  contents : waiting.map (pushed[·]?) = rxq.q.map some
  synced : rxq.synced = true
  full : ∀ r ∈ refused, r.2 = muxerRxqSize
  order : taken.Pairwise fun c d => d.route = .direct → c.num < d.num
  fifo : (taken.filter (·.route = .queued)).map num ++ waiting = accepted

namespace Ledger

variable {pushed : List MuxerRx} {rxq : MuxerRxQ} {taken : List Carried}
  {between waiting accepted : List ℕ} {refused : List (ℕ × ℕ)}

theorem start : Ledger [] .new [] [] [] [] [] :=
  ⟨List.Perm.refl [], by simp, rfl, rfl, by simp, List.Pairwise.nil, rfl⟩

variable {c : Carried} {n : ℕ} {rx : MuxerRx}

theorem num_lt (h : Ledger pushed rxq taken between waiting accepted refused) (hc : c ∈ taken) :
    c.num < pushed.length := by
  obtain ⟨hlt, _⟩ := List.getElem?_eq_some_iff.mp (h.carried c hc)
  exact hlt

theorem waiting_lt (h : Ledger pushed rxq taken between waiting accepted refused)
    (hn : n ∈ waiting) : n < pushed.length := by
  have hmem : n ∈ List.range pushed.length := h.once.mem_iff.mp (by simp [hn])
  exact mem_range.mp hmem

theorem push (h : Ledger pushed rxq taken between waiting accepted refused) (rx : MuxerRx) :
    Ledger (pushed ++ [rx]) rxq (taken ++ [⟨pushed.length, rx, .direct⟩]) between waiting accepted
      refused where
  __ := h
  once := by
    rw [length_append, length_singleton, range_succ]
    refine List.Perm.trans (perm_iff_count.mpr fun a => ?_) (h.once.append_right _)
    simp only [map_append, map_cons, map_nil, count_append]
    omega
  carried c hc := by
    rcases mem_append.mp hc with hc | hc
    · rw [List.getElem?_append_left (h.num_lt hc)]
      exact h.carried c hc
    · obtain rfl := mem_singleton.mp hc
      simp
  contents := by
    rw [← h.contents]
    exact map_congr_left fun n hn => List.getElem?_append_left (h.waiting_lt hn)
  order := by
    refine pairwise_append.mpr ⟨h.order, pairwise_singleton .., ?_⟩
    intro c hc d hd _
    obtain rfl := mem_singleton.mp hd
    exact h.num_lt hc
  fifo := by
    rw [← h.fifo]
    simp

theorem release (h : Ledger pushed rxq (taken ++ [c]) between waiting accepted refused)
    (hc : c.route = .direct) :
    Ledger pushed rxq taken (between ++ [c.num]) waiting accepted refused where
  __ := h
  once := by
    refine List.Perm.trans (perm_iff_count.mpr fun a => ?_) h.once
    simp only [map_append, map_cons, map_nil, count_append]
    omega
  carried d hd := h.carried d (mem_append_left _ hd)
  order := (pairwise_append.mp h.order).1
  fifo := by
    rw [← h.fifo]
    simp [hc]

theorem take {ns : List ℕ} {rest : List MuxerRx}
    (h : Ledger pushed rxq taken between (n :: ns) accepted refused) (hq : rxq.q = rx :: rest) :
    Ledger pushed { rxq with q := rest } (taken ++ [⟨n, rx, .queued⟩]) between ns accepted
      refused where
  __ := h
  once := by
    refine List.Perm.trans (perm_iff_count.mpr fun a => ?_) h.once
    simp only [map_append, map_cons, map_nil, count_append,
      count_cons, count_nil]
    omega
  carried c hc := by
    rcases mem_append.mp hc with hc | hc
    · exact h.carried c hc
    · obtain rfl := mem_singleton.mp hc
      have hcon := h.contents
      simp only [hq, map_cons, List.cons.injEq] at hcon
      exact hcon.1
  contents := by
    have hcon := h.contents
    simp only [hq, map_cons, List.cons.injEq] at hcon
    exact hcon.2
  order := by
    refine pairwise_append.mpr ⟨h.order, pairwise_singleton .., ?_⟩
    intro c _ d hd hdir
    obtain rfl := mem_singleton.mp hd
    simp at hdir
  fifo := by
    rw [← h.fifo]
    simp

theorem count_erase_add {l : List ℕ} (hn : n ∈ l) (a : ℕ) :
    (l.erase n).count a + [n].count a = l.count a := by
  have hp := (perm_cons_erase hn).count_eq a
  rw [count_cons] at hp
  rw [count_singleton]
  omega

theorem accept (h : Ledger pushed rxq taken between waiting accepted refused) (hn : n ∈ between)
    (hrx : pushed[n]? = some rx) :
    Ledger pushed { rxq with q := rxq.q ++ [rx] } taken (between.erase n) (waiting ++ [n])
      (accepted ++ [n]) refused where
  __ := h
  once := by
    refine List.Perm.trans (perm_iff_count.mpr fun a => ?_) h.once
    have he := count_erase_add hn a
    simp only [count_append]
    omega
  contents := by simp [h.contents, hrx]
  fifo := by rw [← h.fifo, append_assoc]

theorem refuse (h : Ledger pushed rxq taken between waiting accepted refused) (hn : n ∈ between)
    (hfull : rxq.q.length = muxerRxqSize) :
    Ledger pushed rxq taken (between.erase n) waiting accepted
      (refused ++ [(n, rxq.q.length)]) where
  __ := h
  once := by
    refine List.Perm.trans (perm_iff_count.mpr fun a => ?_) h.once
    have he := count_erase_add hn a
    simp only [count_append, map_append, map_cons, map_nil]
    omega
  full := forall_mem_snoc h.full hfull

end Ledger

/-! ## The ledger of the system -/

variable (s : RxSystem M)

namespace RxSystem

def taken : List Carried := s.placed ++ s.lock.message.toList

/-- The chain that `push_packet` has popped is an RX packet. -/
def MessageSafe : RxEvent → Prop
  | .fill _ => s.lock.message.isSome → s.nextPacket.isSome
  | _ => True

instance : (e : RxEvent) → Decidable (s.MessageSafe e)
  | .fill _ => inferInstanceAs (Decidable (s.lock.message.isSome → s.nextPacket.isSome))
  | .guest .. | .lock _ | .pop | .take | .use | .enqueue _ => isTrue trivial

end RxSystem

def RxSystem.HasLedger : Prop :=
  Ledger s.pushed s.rxq s.taken s.between s.waiting s.accepted s.refused

namespace RxSystem.HasLedger

variable {s s' : RxSystem M} {cid : U64} {e : RxEvent} {l : RxLock} {hld : Holder}

section

omit [GuestMemory M]

theorem taken_of_lock (hl : s.lock = l) :
    s.taken = s.placed ++ l.message.toList := by rw [taken, hl]

theorem lock (h : s.HasLedger) (call : RxCall) (hl : s.lock = .free) :
    HasLedger { s with
      lock := .locked ⟨call, s.pushed.length⟩, pushed := s.pushed ++ call.message?.toList } := by
  have ht := taken_of_lock hl
  unfold HasLedger at h ⊢
  rw [ht] at h
  simp only [taken, placed, RxLock.message, Holder.message, toList_none,
    append_nil] at h ⊢
  cases call.message? with
  | none => simpa using h
  | some rx => exact h.push rx

theorem keep (h : s.HasLedger) (hl : s.lock = l) (hist : History M) (l' : RxLock)
    (hm : l'.message = l.message) : HasLedger { s with hist, lock := l' } := by
  unfold HasLedger at h ⊢
  rw [taken_of_lock hl, ← hm] at h
  exact h

theorem enqueue (h : s.HasLedger) {num : ℕ} {rx : MuxerRx} (hrx : s.pushed[num]? = some rx)
    (hn : num ∈ s.between) : HasLedger (s.enqueue num rx) := by
  unfold RxSystem.enqueue MuxerRxQ.push
  by_cases hfull : s.rxq.isFull = true
  · rw [if_neg (by simp [hfull])]
    exact Ledger.refuse h hn (by simpa [MuxerRxQ.isFull] using hfull)
  · rw [if_pos (by simp [hfull, Ledger.synced h])]
    exact Ledger.accept h hn hrx

end

theorem popEmpty (h : s.HasLedger) (hl : s.lock = .locked hld) :
    HasLedger { s with
      hist := s.hist.devicePop, lock := .free
      between := s.between ++ hld.message.toList.map num } := by
  have ht := taken_of_lock hl
  unfold HasLedger at h ⊢
  rw [ht] at h
  simp only [taken, placed, RxLock.message, toList_none, append_nil] at h ⊢
  cases hm : hld.message with
  | none => simpa [hm] using h
  | some c =>
    rw [hm] at h
    have hdir : c.route = .direct := by
      obtain ⟨rx, _, rfl⟩ := map_eq_some_iff.mp hm
      rfl
    exact h.release hdir

theorem takeMessage (h : s.HasLedger) {head : DescriptorChain} {pkt : VsockPacket}
    (hl : s.lock = .taking hld head pkt) : HasLedger (s.takeMessage cid hld head pkt) := by
  have ht := taken_of_lock hl
  unfold HasLedger at h
  rw [ht] at h
  simp only [RxLock.message, toList_none, append_nil] at h
  unfold RxSystem.takeMessage MuxerRxQ.pop
  cases hq : s.rxq.q with
  | nil =>
    unfold HasLedger taken
    simpa [RxLock.message, placed] using h
  | cons rx rest =>
    cases hw : s.waiting with
    | nil =>
      have hcon := h.contents
      simp [hq, hw] at hcon
    | cons n ns =>
      rw [hw] at h
      exact h.take hq

theorem step [LawfulGuestMemory M] (h : s.HasLedger) (hrec : Recorded s) (hc : s.MessageSafe e)
    (hs : s.step cid e = some s') : s'.HasLedger := by
  cases access_of_step hs with
  | guest heads writes => exact h
  | lock call hl => exact h.lock call hl
  | popEmpty hld q hl hpop => exact h.popEmpty hl
  | pop hld head q hl hpop => exact h.keep hl _ (.inHand hld head) rfl
  | leak hld head answer e hl hloop hpkt =>
    -- the condition says that there is no message to lose
    have hnone : s.lock.message = none := by
      have hp : s.nextPacket = none := by simp [nextPacket, hl, hpkt, Except.toOption]
      have hcp : s.lock.message.isSome → s.nextPacket.isSome := hc
      rw [hp] at hcp
      simpa using hcp
    exact h.keep rfl _ .free hnone.symm
  | undo hld head answer hl hloop =>
    exact h.keep hl _ .free (Holder.message_of_loops hloop).symm
  | fill hld head answer call mem len hl hloop hmem =>
    exact h.keep hl _ (.filled { hld with call } head.index len hld.message) rfl
  | look hld head answer pkt hl hcall =>
    exact h.keep hl _ (.taking hld head pkt) (Holder.message_of_loops (by rw [hcall]; rfl)).symm
  | take hld head pkt hl => exact h.takeMessage hl
  | use hld head len msg hl =>
    obtain ⟨m₂, hadd, _⟩ := hrec.addUsed_ok hl
    have hnone : RxLock.message (if hld.call.loops then .locked hld else .free) = none := by
      split_ifs with hloop
      · exact Holder.message_of_loops hloop
      · rfl
    unfold HasLedger at h ⊢
    rw [taken_of_lock hl] at h
    simp only [taken, placed, hnone, hadd, if_true, reduceOption_append,
      reduceOption_singleton, toList_none, append_nil]
    exact h
  | enqueue num rx hrx hn => exact h.enqueue hrx hn

end RxSystem.HasLedger

/-- **Accounting.** In every run of the users of an RX queue with mapped rings in which the chains
that `push_packet` pops are RX packets: every message handed to `push_packet` is in exactly one
place, a used buffer, the hands of the call that holds the lock, a call between its two locks, the
queue of the muxer, or the list of those that this queue refused when it was full. A used buffer
was filled with the message of its number. A message that went into a buffer at once comes after
all earlier ones that are in buffers, and those that went through the queue of the muxer come in
the order in which it accepted them. -/
theorem messages_accounted [LawfulGuestMemory M] {q : Queue} {m : M} (hq : q.RingsMapped m)
    (cid : U64) {s : RxSystem M} {es : List RxEvent}
    (hc : Along (RxSystem.step cid) RxSystem.MessageSafe (.start q m) es)
    (hr : run (RxSystem.step cid) (.start q m) es = some s) :
    (s.placed.map num ++ s.lock.message.toList.map num ++ s.between ++
        s.waiting ++ s.refused.map Prod.fst).Perm (List.range s.pushed.length) ∧
      s.uses.length = s.hist.used.length ∧
      (∀ c ∈ s.placed, s.pushed[c.num]? = some c.rx) ∧
      s.waiting.map (s.pushed[·]?) = s.rxq.q.map some ∧
      (∀ r ∈ s.refused, r.2 = muxerRxqSize) ∧
      s.placed.Pairwise (fun c d => d.route = .direct → c.num < d.num) ∧
      ((s.placed ++ s.lock.message.toList).filter (·.route = .queued)).map num ++
        s.waiting = s.accepted := by
  obtain ⟨hrec, hl⟩ := along_invariant (P := fun t => Recorded t ∧ t.HasLedger)
    (fun t e t' ht hce hs => ⟨ht.1.step hs, ht.2.step ht.1 hce hs⟩)
    ⟨Recorded.start hq, Ledger.start⟩ hc hr
  refine ⟨?_, hrec.uses, fun c hc => hl.carried c (mem_append_left _ hc), hl.contents,
    hl.full, (pairwise_append.mp hl.order).1, hl.fifo⟩
  rw [← map_append]
  exact hl.once

/-! ## Overtaking and refusal -/

def waitEvents (num : ℕ) : List RxEvent := [.lock (.pushPacket (.reset 5 6)), .pop, .enqueue num]

/-- After `n` pushes without a buffer. -/
def flooded (n : ℕ) : RxSystem FlatMemory :=
  { RxSystem.start smallQueue smallMemory with
    rxq := ⟨List.replicate n (.reset 5 6), true⟩, pushed := List.replicate n (.reset 5 6)
    waiting := List.range n, accepted := List.range n }

theorem smallQueue_pop_none : smallQueue.pop smallMemory = some (none, smallQueue) := by
  rw [Queue.pop_eq smallQueue_rings]
  exact if_pos (.inl (by decide))

theorem run_waitEvents (n : ℕ) : run (RxSystem.step 3) (flooded n) (waitEvents n) =
    some (RxSystem.enqueue n (.reset 5 6) { flooded n with
      pushed := List.replicate n (.reset 5 6) ++ [.reset 5 6], between := [n] }) := by
  simp [waitEvents, run_cons, RxSystem.step, flooded, RxSystem.start, smallQueue_pop_none,
    History.start, History.devicePop, Holder.message, RxCall.message?]

theorem run_flood {n : ℕ} (hn : n ≤ muxerRxqSize) :
    run (RxSystem.step 3) (.start smallQueue smallMemory) ((List.range n).flatMap waitEvents) =
      some (flooded n) := by
  induction n with
  | zero => rfl
  | succ n ih =>
    rw [range_succ, flatMap_append, run_append, ih (by omega), bind_some,
      flatMap_singleton, run_waitEvents]
    have hfull : ¬ n = muxerRxqSize := by omega
    simp [RxSystem.enqueue, MuxerRxQ.push, MuxerRxQ.isFull, flooded, RxSystem.start, hfull,
      range_succ, replicate_succ']

theorem run_flood_refused :
    (run (RxSystem.step 3) (.start smallQueue smallMemory)
      ((List.range (muxerRxqSize + 1)).flatMap waitEvents)).map
        (fun s => (s.placed, s.between, s.waiting, s.refused)) =
      some ([], [], List.range muxerRxqSize, [(muxerRxqSize, muxerRxqSize)]) := by
  rw [range_succ, flatMap_append, run_append, run_flood le_rfl, bind_some,
    flatMap_singleton, run_waitEvents]
  simp [RxSystem.enqueue, MuxerRxQ.push, MuxerRxQ.isFull, flooded, RxSystem.start,
    RxSystem.placed]

/-- A message waits, the driver publishes two buffers, the next message goes into the first of
them, and `process_stream_rx` puts the one that waits into the second. -/
def overtakeEvents : List RxEvent :=
  waitEvents 0 ++ .guest [0, 1] [bothPublished] :: pushEvents (.reset 7 8) ++
    [.lock .processStreamRx, .pop, .fill (.error eagain), .take, .use]

theorem overtakeEvents_accounted :
    ∃ s, run (RxSystem.step 3) (.start smallQueue (twoBuffers true)) overtakeEvents = some s ∧
      (s.placed.map num ++ s.lock.message.toList.map num ++ s.between ++
        s.waiting ++ s.refused.map Prod.fst).Perm (List.range s.pushed.length) ∧
      s.placed.Pairwise (fun c d => d.route = .direct → c.num < d.num) := by
  obtain ⟨s, hs⟩ := isSome_iff_exists.mp
    (show (run (RxSystem.step 3) (.start smallQueue (twoBuffers true)) overtakeEvents).isSome by
      decide +kernel)
  have hq : smallQueue.RingsMapped (twoBuffers true) :=
    smallQueue_rings.congr (.refl _) fun _ => rfl
  have hc : Along (RxSystem.step 3) RxSystem.MessageSafe (.start smallQueue (twoBuffers true))
      overtakeEvents := by decide +kernel
  obtain ⟨honce, _, _, _, _, horder, _⟩ := messages_accounted hq 3 hc hs
  exact ⟨s, hs, honce, horder⟩

/-- The second message is in a buffer before the first, and the last of 257 messages for which
there are no buffers is dropped. -/
theorem overtaken_and_refused :
    (run (RxSystem.step 3) (.start smallQueue (twoBuffers true)) overtakeEvents).map
        (fun s => s.placed.map num) = some [1, 0] ∧
      (run (RxSystem.step 3) (.start smallQueue smallMemory)
        ((List.range (muxerRxqSize + 1)).flatMap waitEvents)).map
          (fun s => (s.placed, s.between, s.waiting, s.refused)) =
        some ([], [], List.range muxerRxqSize, [(muxerRxqSize, muxerRxqSize)]) :=
  ⟨by decide +kernel, run_flood_refused⟩

end Shelter.Vsock
