import Shelter.Vsock.RxSystem

/-!
# Buffers are used in order

The vsock device offers `VIRTIO_F_IN_ORDER`: it returns the buffers of a queue in the order in
which the driver made them available. For the RX queue this is a matter of all its users, each of
which has to use or undo every head it pops. The loops do so on every path. `push_packet` and
`send_time` forget a head whose chain is no RX packet, and from then on the used ring has a gap.

`used_in_order` is the positive part. It needs the driver to publish as `DriverWrites` says and to
keep its buffers clear of the rings; nothing is asked of the chains that the loops pop.
-/

open Bytes Run

namespace Shelter.Vsock

open Virtio

variable {M : Type} [GuestMemory M]

/-- The packet is clear of the used ring and of the available ring. -/
def VsockPacket.ClearOfRings (pkt : VsockPacket) (q : Queue) : Prop :=
  pkt.ApartFrom q.usedRing.toNat (6 + 8 * q.size.toNat) ∧
    pkt.ApartFrom q.availRing.toNat (6 + 2 * q.size.toNat)
  deriving Decidable

namespace RxSystem

variable (s : RxSystem M)

/-- A call that does not undo its pops has an RX packet in hand. -/
def HasPacket : Prop :=
  match s.lock with
  | .inHand h _ => h.call.loops = false → s.nextPacket.isSome
  | _ => True

instance : Decidable s.HasPacket := by
  unfold HasPacket
  split <;> infer_instance

/-- The packets are clear of the rings, and the chains that `push_packet` and `send_time` pop are
RX packets. -/
def OrderlyAccess : RxEvent → Prop
  | .fill _ => s.HasPacket ∧ ∀ pkt ∈ s.nextPacket, pkt.ClearOfRings s.hist.queue
  | .take => ∀ pkt ∈ s.nextPacket, pkt.ClearOfRings s.hist.queue
  | _ => True

instance (e : RxEvent) : Decidable (s.OrderlyAccess e) := by
  unfold OrderlyAccess
  split <;> infer_instance

def Orderly (e : RxEvent) : Prop :=
  match e with
  | .guest heads writes => DriverWrites s.hist heads (guestWrite s.hist.mem writes)
  | e => s.OrderlyAccess e

end RxSystem

/-- The heads used so far, and the one in hand, are the heads popped so far. -/
structure InOrder (s : RxSystem M) : Prop where
  inv : Inv s.hist
  heads : s.hist.used.map Prod.fst ++ s.lock.heads = s.hist.popped
  undoable : ∀ h head, s.lock = .inHand h head → s.hist.undoable = true

variable {s : History M} {m' : M}

theorem inv_write (h : Inv s) (hl : SameLayout s.mem m')
    (hu : SameOn s.queue.usedRing.toNat (6 + 8 * s.queue.size.toNat) s.mem m')
    (ha : SameOn s.queue.availRing.toNat (6 + 2 * s.queue.size.toNat) s.mem m') :
    Inv { s with mem := m' } := by
  have hd : DriverWrites s [] m' :=
    { layout := hl
      used := hu
      cells := fun i hi hne => absurd (Queue.availCell_congr rfl ha hi) hne
      fill := fun j hj => by simp at hj
      idx := (Queue.availIdxField_congr rfl ha).trans h.availIdx
      room := h.room }
  simpa using inv_driver h hd

theorem inv_within {pkt : VsockPacket} (h : Inv s) (hw : pkt.Within s.mem m')
    (hc : pkt.ClearOfRings s.queue) : Inv { s with mem := m' } :=
  inv_write h hw.layout (hw.sameOn hc.1) (hw.sameOn hc.2)

namespace InOrder

variable {s s' : RxSystem M} {cid : U64}

theorem start {q : Queue} {m : M} (hc : Configured q m) (hf : Fresh q m) :
    InOrder (RxSystem.start q m) :=
  ⟨inv_start hc hf, rfl, fun h head hl => by simp [RxSystem.start] at hl⟩

section Accesses

variable {hld : Holder} {q : Queue} {head : DescriptorChain} {lock : RxLock}

theorem undo (h : InOrder s) (hl : s.lock = .inHand hld head) :
    InOrder { s with hist := s.hist.deviceUndoPop, lock := .free } := by
  refine ⟨inv_undoPop h.inv (h.undoable hld head hl), ?_, fun _ _ hl => by simp at hl⟩
  have hh := h.heads
  rw [hl] at hh
  show s.hist.used.map Prod.fst ++ [] = s.hist.popped.dropLast
  rw [← hh]
  simp [RxLock.heads]

theorem keepHead (h : InOrder s) {mem : M} (hinv : Inv { s.hist with mem })
    (hheads : lock.heads = s.lock.heads) (hlock : ∀ h head, lock ≠ .inHand h head)
    (rxq : MuxerRxQ) (waiting : List ℕ) :
    InOrder { s with hist := { s.hist with mem }, lock, rxq, waiting } where
  inv := hinv
  heads := by
    rw [hheads]
    exact h.heads
  undoable hld head hl := absurd hl (hlock hld head)

theorem enqueue (h : InOrder s) (num : ℕ) (rx : MuxerRx) : InOrder (s.enqueue num rx) := by
  unfold RxSystem.enqueue
  split <;> exact ⟨h.inv, h.heads, h.undoable⟩

theorem popEmpty (h : InOrder s) (hl : s.lock = .locked hld)
    (hpop : s.hist.queue.pop s.hist.mem = some (none, q)) (between : List ℕ) :
    InOrder { s with hist := s.hist.devicePop, lock := .free, between } := by
  have hd : s.hist.devicePop = { s.hist with queue := q, undoable := false } := by
    unfold History.devicePop
    rw [hpop]
  rw [hd]
  refine ⟨inv_popEmpty h.inv hpop, ?_, fun _ _ hl => by simp at hl⟩
  have hh := h.heads
  rw [hl] at hh
  exact hh

variable [LawfulGuestMemory M]

theorem pop (h : InOrder s) (hl : s.lock = .locked hld)
    (hpop : s.hist.queue.pop s.hist.mem = some (some head, q)) :
    InOrder { s with hist := s.hist.devicePop, lock := .inHand hld head } := by
  have hd : s.hist.devicePop =
      { s.hist with queue := q, popped := s.hist.popped ++ [head.index], undoable := true } := by
    unfold History.devicePop
    rw [hpop]
  rw [hd]
  refine ⟨inv_pop h.inv hpop, ?_, fun _ _ _ => rfl⟩
  have hh := h.heads
  rw [hl] at hh
  simpa [RxLock.heads] using hh

theorem use (h : InOrder s) (hrec : Recorded s) {head : U16} {len : U32} {msg : Option Carried}
    (hl : s.lock = .filled hld head len msg) (hheads : lock.heads = [])
    (hlock : ∀ h head, lock ≠ .inHand h head) (uses : List (Option Carried)) :
    InOrder { s with hist := s.hist.deviceAddUsed head len, lock, uses } := by
  obtain ⟨m₂, hadd, _⟩ := hrec.addUsed_ok hl
  rw [History.deviceAddUsed_ok hadd]
  refine ⟨inv_addUsed h.inv hadd, ?_, fun hld head hl => absurd hl (hlock hld head)⟩
  have hh := h.heads
  rw [hl] at hh
  show (s.hist.used ++ [(head, len)]).map Prod.fst ++ lock.heads = s.hist.popped
  rw [hheads, List.append_nil, List.map_append]
  exact hh

theorem takeMessage (h : InOrder s) {pkt : VsockPacket} (hl : s.lock = .taking hld head pkt)
    (hc : pkt.ClearOfRings s.hist.queue) : InOrder (s.takeMessage cid hld head pkt) := by
  unfold RxSystem.takeMessage
  split
  · exact h.keepHead (inv_within h.inv (rxToPkt_within ..) hc) (by rw [hl]; rfl)
      (fun _ _ => by simp) _ _
  · exact h.keepHead h.inv (by rw [hl]; rfl) (fun _ _ => by simp) _ _

theorem step {e : RxEvent} (h : InOrder s) (hrec : Recorded s) (hc : s.Orderly e)
    (hs : s.step cid e = some s') : InOrder s' := by
  cases access_of_step hs with
  | guest heads writes => exact ⟨inv_driver h.inv hc, h.heads, h.undoable⟩
  | lock call hl =>
    refine ⟨h.inv, ?_, fun _ _ hl => by simp at hl⟩
    have hh := h.heads
    rw [hl] at hh
    exact hh
  | popEmpty hld q hl hpop => exact h.popEmpty hl hpop _
  | pop hld head q hl hpop => exact h.pop hl hpop
  | leak hld head answer e hl hloop hpkt =>
    have hp := hc.1
    simp [RxSystem.HasPacket, RxSystem.nextPacket, hl, hpkt, hloop, Except.toOption] at hp
  | undo hld head answer hl => exact h.undo hl
  | fill hld head answer call mem len hl hloop hmem =>
    refine h.keepHead ?_ (by rw [hl]; rfl) (fun _ _ => by simp) _ _
    rcases hmem with rfl | ⟨pkt, hpkt, hw⟩
    · exact h.inv
    · have hnext : pkt ∈ s.nextPacket := by
        simp [RxSystem.nextPacket, hl, hpkt, Except.toOption]
      exact inv_within h.inv hw (hc.2 pkt hnext)
  | look hld head answer pkt hl =>
    exact h.keepHead h.inv (by rw [hl]; rfl) (fun _ _ => by simp) _ _
  | take hld head pkt hl => exact h.takeMessage hl (hc pkt (by simp [RxSystem.nextPacket, hl]))
  | use hld head len msg hl =>
    refine h.use hrec hl ?_ (fun _ _ => ?_) _
    · split_ifs <;> rfl
    · split_ifs <;> simp
  | enqueue num rx _ _ => exact h.enqueue num rx

end Accesses

end InOrder

/-- **In order.** In every run of the users of the RX queue of a configured queue that starts
fresh, as long as the driver publishes as it should, the packets are clear of the rings and the
chains that `push_packet` and `send_time` pop are RX packets: the heads in the used ring, followed
by the one that a call has in hand, are the first heads the driver published. The index field and
the cells of the used ring show them. -/
theorem used_in_order [LawfulGuestMemory M] {q : Queue} {m : M} (hc : Configured q m)
    (hf : Fresh q m) (cid : U64) {s : RxSystem M} {es : List RxEvent}
    (ho : Along (RxSystem.step cid) RxSystem.Orderly (.start q m) es)
    (hr : run (RxSystem.step cid) (.start q m) es = some s) :
    s.hist.used.map Prod.fst ++ s.lock.heads <+: s.hist.published ∧
      s.hist.queue.usedIdxField s.hist.mem = BitVec.ofNat 16 s.hist.used.length ∧
      ∀ k, ∀ hk : k < s.hist.used.length, s.hist.used.length ≤ k + s.hist.queue.size.toNat →
        s.hist.queue.usedCell s.hist.mem (k % s.hist.queue.size.toNat) =
          usedElem (s.hist.used.get ⟨k, hk⟩) := by
  obtain ⟨h, _⟩ := along_invariant (P := fun t => InOrder t ∧ Recorded t)
    (fun t e t' ht hce hs => ⟨ht.1.step ht.2 hce hs, ht.2.step hs⟩)
    ⟨InOrder.start hc hf, Recorded.start hc.rings⟩ ho hr
  refine ⟨h.heads ▸ h.inv.popped_prefix, h.inv.usedIdx, fun k hk hlast => ?_⟩
  have hcell := h.inv.usedCells k (by omega) (by rwa [List.length_map])
  rw [show k % s.hist.queue.size.toNat = Ring.slot s.hist.queue.size.toNat k from rfl, hcell]
  simp

/-! ## Runs on two buffers -/

variable (writable : Bool)

theorem twoBuffers_configured : Configured smallQueue (twoBuffers writable) :=
  smallQueue_configured.congr (.refl _) fun _ => rfl

theorem twoBuffers_fresh : Fresh smallQueue (twoBuffers writable) := by
  cases writable <;> exact ⟨by decide, by decide, by decide, by decide⟩

theorem twoBuffers_driverWrites : DriverWrites (History.start smallQueue (twoBuffers writable))
    [0, 1] (guestWrite (twoBuffers writable) [bothPublished]) where
  layout := fun _ => rfl
  used := (writeSlice_sameOutside _ _ _).sameOn (apart_of_le (by cases writable <;> decide))
  cells := fun _ hi _ => History.start_cell_free hi
  fill := by cases writable <;> decide
  idx := by cases writable <;> decide
  room := by cases writable <;> decide

/-- A message, a look at the empty queue of the muxer, which is undone, and the time. -/
def orderlyEvents : List RxEvent :=
  .guest [0, 1] [bothPublished] :: pushEvents (.reset 5 6) ++
    [.lock .processStreamRx, .pop, .fill (.error eagain)] ++
    [.lock (.sendTime 7), .pop, .fill (.error eagain), .use]

theorem orderlyEvents_inOrder :
    ∃ s, run (RxSystem.step 3) (.start smallQueue (twoBuffers true)) orderlyEvents = some s ∧
      s.hist.used.map Prod.fst ++ s.lock.heads <+: s.hist.published := by
  obtain ⟨s, hs⟩ := Option.isSome_iff_exists.mp
    (show (run (RxSystem.step 3) (.start smallQueue (twoBuffers true)) orderlyEvents).isSome by
      decide +kernel)
  have ho : Along (RxSystem.step 3) RxSystem.Orderly (.start smallQueue (twoBuffers true))
      orderlyEvents := by
    refine ⟨twoBuffers_driverWrites true, fun s' hs' => ?_⟩
    cases hs'
    have hdev : Along (RxSystem.step 3) (fun s e => e.isGuest = false ∧ s.OrderlyAccess e)
        { RxSystem.start smallQueue (twoBuffers true) with
          hist := (History.start smallQueue (twoBuffers true)).driverPublish [0, 1]
            (guestWrite (twoBuffers true) [bothPublished]) } orderlyEvents.tail := by
      decide +kernel
    refine hdev.mono fun s e h => ?_
    cases e with
    | guest => exact Bool.noConfusion h.1
    | _ => exact h.2
  exact ⟨s, hs, (used_in_order (twoBuffers_configured true) (twoBuffers_fresh true) 3 ho hs).1⟩

/-- A message for which the driver has published a read-only chain: neither its head nor the
message is seen again, and the next message goes into the second buffer. -/
theorem readOnly_chain_gap :
    DriverWrites (History.start smallQueue (twoBuffers false)) [0, 1]
      (guestWrite (twoBuffers false) [bothPublished]) ∧
    (run (RxSystem.step 3) (.start smallQueue (twoBuffers false))
      (.guest [0, 1] [bothPublished] ::
        [.lock (.pushPacket (.reset 5 6)), .pop, .fill (.error eagain)] ++
        pushEvents (.reset 5 6))).map
      (fun s => (s.hist.used.map Prod.fst, s.lock.heads, s.hist.published)) =
    some ([1], [], [0, 1]) :=
  ⟨twoBuffers_driverWrites false, by decide +kernel⟩

end Shelter.Vsock
