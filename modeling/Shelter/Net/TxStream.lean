import Shelter.Net.TxChains

/-!
# The stream of frames

The guest offers chains; each is a frame behind a header of 12 bytes. `stream_sent`: whatever parts
the socket takes and whenever it is full, the bytes it has taken are the frames of the first chains,
each behind its length, followed by a part of the next one. The length of this part is what the
backend has counted, together with what the call in progress has sent, and what is missing of the
frame is still in the buffer.
-/

open Bytes

namespace Shelter.Net

open Virtio Run List Nat

variable {M : Type} [GuestMemory M]

/-! ## What the guest offers -/

/-- A buffer in guest memory. It may be empty, but its address may not lie outside. -/
def Readable (m : M) (d : DescriptorChain) : Prop :=
  (readSlice m d.addr.toNat d.len.toNat).isSome = true ∧ (readSlice m d.addr.toNat 0).isSome = true
  deriving Decidable

def chainData (m : M) (head : DescriptorChain) : Option (List Byte) :=
  if ∀ d ∈ head.intoIter.collect m, d.isWriteOnly = false ∧ Readable m d then
    some ((head.intoIter.collect m).flatMap fun d => bytesAt m d.addr.toNat d.len.toNat)
  else none

/-- The chain in the entry of the available ring that the counter names. -/
def chainAt (q : Queue) (m : M) (k : ℕ) : Option DescriptorChain :=
  DescriptorChain.checkedNew m q.descTable q.actualSize
    (Queue.headAt { q with nextAvail := BitVec.ofNat 16 k } m)

/-- A chain of the guest: its head and its bytes. -/
structure TxChain where
  head : DescriptorChain
  bytes : List Byte
  deriving DecidableEq, Repr

/-- The frame of a chain, as far as the buffer of the worker goes. -/
def TxChain.frame (c : TxChain) : List Byte := (c.bytes.take maxBufferSize).drop vnetHdrLen

def TxChain.encode (c : TxChain) : List Byte := frameHeader c.frame.length ++ c.frame

variable (chains : ℕ → TxChain)

/-- What is to be sent for the first `n` chains. -/
def stream (n : ℕ) : List Byte :=
  (List.range n).flatMap fun k => (chains k).encode

theorem stream_succ (n : ℕ) :
    stream chains (n + 1) = stream chains n ++ (chains n).encode := by
  unfold stream
  rw [range_succ, flatMap_append]
  simp

section Copy

theorem take_take_append (l r : List Byte) (n : ℕ) :
    ((l.take n) ++ r).take n = (l ++ r).take n := by
  rcases le_total l.length n with h | h
  · rw [take_of_length_le h]
  · rw [take_append_of_le_length (by rw [length_take]; omega), take_take,
      min_self, take_append_of_le_length h]

theorem take_bytesAt (m : M) (a n k : ℕ) (h : k ≤ n) : (bytesAt m a n).take k = bytesAt m a k := by
  unfold bytesAt
  rw [← map_take, take_range, min_eq_left h]

variable {descs : List DescriptorChain} {m : M}

theorem txIovec_eq (iovec : List (ℕ × ℕ)) (h : ∀ d ∈ descs, d.isWriteOnly = false) :
    txIovec iovec descs = iovec ++ descs.map fun d => (d.addr.toNat, d.len.toNat) := by
  induction descs generalizing iovec with
  | nil => simp [txIovec]
  | cons d rest ih =>
    rw [txIovec, if_neg (by rw [h d mem_cons_self]; nofun),
      ih _ fun e he => h e (mem_cons_of_mem _ he), map_cons, append_assoc]
    rfl

variable [LawfulGuestMemory M]

theorem readSlice_of_readable {d : DescriptorChain} (h : Readable m d) {k : ℕ}
    (hk : k ≤ d.len.toNat) :
    ∃ bs, readSlice m d.addr.toNat k = some bs ∧
      bs.take k = (bytesAt m d.addr.toNat d.len.toNat).take k := by
  by_cases hzero : k = 0
  · subst hzero
    obtain ⟨bs, hbs⟩ := Option.isSome_iff_exists.mp h.2
    exact ⟨bs, hbs, by rw [take_zero, take_zero]⟩
  · have hmapped : Mapped m d.addr.toNat d.len.toNat := by
      by_contra hno
      have hsome := h.1
      rw [LawfulGuestMemory.readSlice_eq (by omega), if_neg hno] at hsome
      cases hsome
    refine ⟨_, readSlice_eq_some (by omega) (hmapped.mono le_rfl (by omega)), ?_⟩
    rw [take_bytesAt m _ _ _ hk, take_of_length_le (by rw [length_bytesAt])]

theorem copyBuffers_eq (h : ∀ d ∈ descs, Readable m d) (copied : List Byte)
    (hc : copied.length ≤ maxBufferSize) :
    copyBuffers m copied (descs.map fun d => (d.addr.toNat, d.len.toNat)) =
      (copied ++ descs.flatMap fun d => bytesAt m d.addr.toNat d.len.toNat).take
        maxBufferSize := by
  induction descs generalizing copied with
  | nil => simp [copyBuffers, take_of_length_le hc]
  | cons d rest ih =>
    obtain ⟨bs, hread, htake⟩ := readSlice_of_readable (h d mem_cons_self)
      (k := min (copied.length + d.len.toNat) maxBufferSize - copied.length) (by omega)
    have hcut : copied ++ bs.take (min (copied.length + d.len.toNat) maxBufferSize -
          copied.length) =
        (copied ++ bytesAt m d.addr.toNat d.len.toNat).take maxBufferSize := by
      rw [htake, take_append, take_of_length_le hc]
      congr 1
      rw [take_bytesAt _ _ _ _ (by omega)]
      by_cases hfit : copied.length + d.len.toNat ≤ maxBufferSize
      · rw [take_of_length_le (by rw [length_bytesAt]; omega), min_eq_left hfit,
          Nat.add_sub_cancel_left]
      · rw [take_bytesAt _ _ _ _ (by omega), min_eq_right (by omega)]
    rw [map_cons, copyBuffers]
    simp only [hread]
    rw [hcut, ih (fun e he => h e (mem_cons_of_mem _ he)) _ (by rw [length_take]; omega),
      take_take_append, flatMap_cons, append_assoc]

theorem chainBuffer_eq {head : DescriptorChain} {bytes : List Byte}
    (h : chainData m head = some bytes) : chainBuffer m head = bytes.take maxBufferSize := by
  unfold chainData at h
  split_ifs at h with hall
  cases h
  unfold chainBuffer
  rw [txIovec_eq [] fun d hd => (hall d hd).1, nil_append,
    copyBuffers_eq (fun d hd => (hall d hd).2) [] (zero_le _), nil_append]

end Copy

/-! ## What was sent -/

def TxPc.bytesSend : TxPc → ℕ
  | .sending _ b => b
  | .idle | .disabling | .starting | .popping _ | .copying _ | .leaving _ | .enabling
  | .panicked => 0

def TxPc.isSending : TxPc → Bool
  | .sending _ _ => true
  | .idle | .disabling | .starting | .popping _ | .copying _ | .leaving _ | .enabling
  | .panicked => false

def TxStep.Fine : TxStep → Prop
  | .send answer => answer.Fine
  | .queueEvent | .writeable | .disable | .start | .pop | .copy | .leave | .enable
  | .guest _ _ => True

instance : ∀ e : TxStep, Decidable e.Fine
  | .send answer => inferInstanceAs (Decidable answer.Fine)
  | .queueEvent | .writeable | .disable | .start | .pop | .copy | .leave | .enable
  | .guest _ _ => inferInstanceAs (Decidable True)

namespace TxWorker

variable (s : TxWorker M)

def position : ℕ := s.popped - s.undone.length

def published : ℕ :=
  s.position + (s.queue.availIdxField s.mem - s.queue.nextAvail).toNat

/-- The chains that the guest has published, and that were not put in the used ring, are those of
the sequence, and each has a frame. -/
def Offers (s : TxWorker M) : Prop :=
  ∀ k < s.published, s.used.length ≤ k →
    chainAt s.queue s.mem k = some (chains k).head ∧
      chainData s.mem (chains k).head = some (chains k).bytes ∧
      vnetHdrLen < (chains k).bytes.length

instance (s : TxWorker M) : Decidable (Offers chains s) :=
  inferInstanceAs (Decidable (∀ k < s.published, s.used.length ≤ k → _))

def begun : Bool :=
  s.pc.hand.isSome || s.backend.lastPartialWriteLength != 0

def progress : ℕ := s.backend.lastPartialWriteLength + s.pc.bytesSend

/-- The chains that were taken, but for the last one if it is begun, were sent, and of the begun one
as much as was counted; the rest is in the buffer. -/
def Streamed (s : TxWorker M) : Prop :=
  ∃ n, s.position = n + (if s.begun then 1 else 0) ∧
    s.sent = stream chains n ++ (chains n).encode.take s.progress ∧
    s.progress < (chains n).encode.length ∧
    (s.progress ≠ 0 → s.unsent.drop s.pc.bytesSend = (chains n).encode.drop s.progress)

/-- The counters fit together, and the chain or the buffer in use is that of chain `n`. -/
structure At (chains : ℕ → TxChain) (s : TxWorker M) (n : ℕ) : Prop where
  steady : s.Steady
  undone_le : s.undone.length ≤ s.popped
  next : s.queue.nextAvail = BitVec.ofNat 16 s.position
  returned : s.used.length + s.pc.hand.toList.length = s.position
  taken : s.position = n + if s.begun then 1 else 0
  sending : s.pc.isSending = true → s.begun = true
  held : ∀ h ∈ s.pc.hand, h.head = (chains n).head
  buffer : s.backend.lastPartialWriteLength ≠ 0 ∨ s.pc.isSending = true →
    s.frame.drop (vnetHdrLen - passtHeaderLen) = (chains n).encode
  sent : s.sent = stream chains n ++ (chains n).encode.take s.progress

section Steps

variable {chains : ℕ → TxChain} {s s' : TxWorker M} {n : ℕ}

omit [GuestMemory M] in
theorem unsent_eq (hb : s.frame.drop (vnetHdrLen - passtHeaderLen) = (chains n).encode) :
    s.unsent = (chains n).encode.drop s.backend.lastPartialWriteLength := by
  rw [← hb, drop_drop]
  rfl

theorem At.unsent_drop (h : At chains s n)
    (hb : s.backend.lastPartialWriteLength ≠ 0 ∨ s.pc.isSending = true) :
    s.unsent.drop s.pc.bytesSend = (chains n).encode.drop s.progress := by
  rw [unsent_eq (h.buffer hb), drop_drop]
  rfl

theorem encode_pos (c : TxChain) : 0 < c.encode.length := by
  rw [TxChain.encode, length_append, length_frameHeader]
  omega

theorem bytesSend_of_not_sending {pc : TxPc} (h : pc.isSending = false) : pc.bytesSend = 0 := by
  cases pc <;> first | rfl | cases h

theorem At.progress_lt (h : At chains s n) : s.progress < (chains n).encode.length := by
  by_cases hb : s.backend.lastPartialWriteLength ≠ 0 ∨ s.pc.isSending = true
  · have hlen : s.unsent.length =
        (chains n).encode.length - s.backend.lastPartialWriteLength := by
      rw [unsent_eq (h.buffer hb), length_drop]
    rcases hpc : s.pc.isSending with _ | _
    · have hp := hb.resolve_right (by rw [hpc]; nofun)
      have hlt := h.steady.inRange hp
      rw [length_unsent] at hlen
      rw [progress, bytesSend_of_not_sending hpc]
      omega
    · obtain ⟨job, b, hs⟩ : ∃ job b, s.pc = .sending job b := by
        cases hc : s.pc with
        | sending job b => exact ⟨job, b, rfl⟩
        | _ => rw [hc] at hpc; cases hpc
      have hlt := h.steady.loop job b hs
      rw [progress, hs]
      show s.backend.lastPartialWriteLength + b < _
      omega
  · rw [not_or, not_not] at hb
    rw [progress, hb.1, bytesSend_of_not_sending (by simpa using hb.2)]
    exact encode_pos _

theorem At.streamed (h : At chains s n) : Streamed chains s := by
  refine ⟨n, h.taken, h.sent, h.progress_lt, fun hp => h.unsent_drop ?_⟩
  by_contra hno
  rw [not_or, not_not] at hno
  refine hp ?_
  rw [progress, hno.1, bytesSend_of_not_sending (by simpa using hno.2)]

theorem At.at_pc (h : At chains s n) {pc : TxPc} (hpc : s.pc = pc) :
    At chains { s with pc := pc } n :=
  TxWorker.at_pc (P := (At chains · n)) hpc h

theorem At.position_eq (h : At chains s n) (hb : s.begun = true) : s.position = n + 1 := by
  have htaken := h.taken
  rw [hb] at htaken
  exact htaken

theorem At.sent_append (h : At chains s n) (hs : s.pc.isSending = true) (size : ℕ) :
    s.sent ++ (s.unsent.drop s.pc.bytesSend).take size =
      stream chains n ++ (chains n).encode.take (s.progress + size) := by
  rw [h.unsent_drop (.inr hs), h.sent, append_assoc, ← take_add]

theorem At.sent_all (h : At chains s n) (hs : s.pc.isSending = true) :
    s.sent ++ s.unsent.drop s.pc.bytesSend = stream chains (n + 1) := by
  rw [h.unsent_drop (.inr hs), h.sent, append_assoc, take_append_drop, stream_succ]

theorem ofNat_succ (k : ℕ) : BitVec.ofNat 16 k + 1 = BitVec.ofNat 16 (k + 1) := by
  rw [BitVec.ofNat_add]
  rfl

theorem At.popped (h : At chains s n) {b : Bool} {head : DescriptorChain} (hpc : s.pc = .popping b)
    (hhead : head = (chains s.position).head) {t : TxWorker M} (ht : t.Steady)
    (heq : t = { s with
      queue := { s.queue with nextAvail := s.queue.nextAvail + 1 }
      pc := .copying ⟨b, s.popped, head⟩
      popped := s.popped + 1 }) : At chains t n := by
  have hclear : s.backend.lastPartialWriteLength = 0 := h.steady.clear (by rw [hpc]; trivial)
  replace h := h.at_pc hpc
  have hret : s.used.length = s.position := h.returned
  have hnext : s.queue.nextAvail = BitVec.ofNat 16 s.position := h.next
  have hun : s.undone.length ≤ s.popped := h.undone_le
  have hn : s.position = n + if s.backend.lastPartialWriteLength != 0 then 1 else 0 := h.taken
  rw [hclear] at hn
  replace hn : s.position = n := hn
  have hpos : s.popped + 1 - s.undone.length = s.position + 1 := by
    unfold position
    omega
  subst heq
  refine ⟨ht, le_succ_of_le hun, ?_, ?_, ?_, nofun, ?_, fun hb => hb.elim (absurd hclear) nofun,
    h.sent⟩
  · show s.queue.nextAvail + 1 = BitVec.ofNat 16 (s.popped + 1 - s.undone.length)
    rw [hpos, hnext, ofNat_succ]
  · show s.used.length + 1 = s.popped + 1 - s.undone.length
    omega
  · show s.popped + 1 - s.undone.length = n + 1
    omega
  · rintro _ ⟨⟩
    rw [hhead, hn]

variable {hand : TxHand}

theorem At.copied (h : At chains s n) {frame : List Byte} (hpc : s.pc = .copying hand)
    (hframe : frame.drop (vnetHdrLen - passtHeaderLen) = (chains n).encode)
    (ht : Steady { s with frame := frame, pc := .sending (.frame hand) 0 }) :
    At chains { s with frame := frame, pc := .sending (.frame hand) 0 } n := by
  replace h := h.at_pc hpc
  exact { h with steady := ht, sending := fun _ => rfl, buffer := fun _ => hframe }

theorem At.took (h : At chains s n) {job : TxJob} {b : ℕ} {taken : List Byte}
    (hpc : s.pc = .sending job b) (htake : taken = (s.unsent.drop b).take taken.length)
    (ht : Steady { s with sent := s.sent ++ taken, pc := .sending job (b + taken.length) }) :
    At chains { s with sent := s.sent ++ taken, pc := .sending job (b + taken.length) } n := by
  replace h := h.at_pc hpc
  have hall := h.sent_append rfl taken.length
  have hsent : s.sent ++ taken = stream chains n ++ (chains n).encode.take
      (s.backend.lastPartialWriteLength + (b + taken.length)) := by
    rw [← add_assoc]
    exact (congrArg _ htake).trans hall
  have hbegun := h.sending rfl
  have hbuf := h.buffer (.inr rfl)
  cases job <;>
    exact { h with
      steady := ht, sending := fun _ => hbegun, buffer := fun _ => hbuf, sent := hsent }

theorem begun_add {p b : ℕ} (h : p + b ≠ 0) : n + 1 = n + if p + b != 0 then 1 else 0 := by
  rw [if_pos (bne_iff_ne.mpr h)]

theorem At.undone (h : At chains s n) (hpc : s.pc = .sending (.frame hand) 0) {t : TxWorker M}
    (ht : t.Steady)
    (heq : t = { s with
      queue := s.queue.undoPop, pc := .leaving hand.raiseIrq,
      undone := hand.number :: s.undone }) : At chains t n := by
  have hclear : s.backend.lastPartialWriteLength = 0 := h.steady.clear (by rw [hpc]; trivial)
  replace h := h.at_pc hpc
  have hret : s.used.length + 1 = s.position := h.returned
  have hnext : s.queue.nextAvail = BitVec.ofNat 16 s.position := h.next
  have hpos : s.position = n + 1 := h.position_eq rfl
  have hun : s.popped - (s.undone.length + 1) = n ∧ s.undone.length + 1 ≤ s.popped := by
    unfold position at *
    omega
  subst heq
  refine ⟨ht, hun.2, ?_, ?_, ?_, nofun, nofun, fun hb => hb.elim (absurd hclear) nofun, h.sent⟩
  · show s.queue.nextAvail - 1 = BitVec.ofNat 16 (s.popped - (s.undone.length + 1))
    rw [hun.1, hnext, hpos, ← ofNat_succ]
    bv_omega
  · show s.used.length + 0 = s.popped - (s.undone.length + 1)
    omega
  · show s.popped - (s.undone.length + 1) =
      n + if s.backend.lastPartialWriteLength != 0 then 1 else 0
    rw [hun.1, hclear]
    rfl

section Moves

variable [LawfulGuestMemory M]

theorem head_of_pop (h : s.Steady) (hnext : s.queue.nextAvail = BitVec.ofNat 16 s.position)
    (hused : s.used.length ≤ s.position) (ho : Offers chains s) {head : DescriptorChain}
    {q : Queue} (hpop : s.queue.pop s.mem = some (some head, q)) :
    head = (chains s.position).head := by
  rw [Queue.pop_eq h.rings] at hpop
  split_ifs at hpop with hempty
  · cases hpop
  · have hlt : s.position < s.published := by
      unfold published
      have : (s.queue.availIdxField s.mem - s.queue.nextAvail).toNat ≠ 0 := by bv_omega
      omega
    obtain ⟨hat, -⟩ := ho s.position hlt hused
    unfold chainAt at hat
    rw [← hnext] at hat
    rcases Queue.popAt_cases s.queue s.mem (s.queue.headAt s.mem) with ⟨c, hc, -, heq⟩ | ⟨hc, heq⟩
    · rw [heq] at hpop
      cases hpop
      exact Option.some.inj (hc.symm.trans hat)
    · rw [heq] at hpop
      cases hpop

theorem At.chainBuffer_eq (h : At chains s n) (ho : Offers chains s)
    (hhand : s.pc.hand = some hand) :
    vnetHdrLen < (chainBuffer s.mem hand.head).length ∧
      frameHeader ((chainBuffer s.mem hand.head).length - vnetHdrLen) ++
        (chainBuffer s.mem hand.head).drop vnetHdrLen = (chains n).encode := by
  have hret := h.returned
  have htaken := h.taken
  have hbegun : s.begun = true := by rw [begun, hhand]; rfl
  have hone : s.pc.hand.toList.length = 1 := by rw [hhand]; rfl
  rw [hbegun, if_pos rfl] at htaken
  obtain ⟨-, hdata, hlong⟩ := ho n (by unfold published; omega) (by omega)
  rw [h.held hand hhand, Net.chainBuffer_eq hdata]
  constructor
  · rw [length_take]
    unfold maxBufferSize vnetHdrLen at *
    omega
  · rw [TxChain.encode, TxChain.frame, length_drop]

theorem At.move (h : At chains s n) {e : TxStep} (hm : Move s e s') (ht : s'.Steady)
    (ho : Offers chains s) (hf : e.Fine) : ∃ n', At chains s' n' := by
  cases hm with
  | kicked hpc | disabled hpc | empty hpc => exact ⟨n, { h.at_pc hpc with steady := ht }⟩
  | skipped hr hto hp =>
    cases hr with
    | writeable hpc | unfinished hpc =>
      cases hto
      exact ⟨n, { h.at_pc hpc with steady := ht }⟩
  | resumed hr hp =>
    have hbuf := h.buffer (.inl hp)
    cases hr with
    | writeable hpc | unfinished hpc =>
      exact ⟨n, { h.at_pc hpc with
        steady := ht, sending := fun _ => bne_iff_ne.mpr hp, buffer := fun _ => hbuf }⟩
  | popped hpc hpop hlt =>
    have hret := h.returned
    exact ⟨n, h.popped hpc (head_of_pop h.steady h.next (by omega) ho hpop) ht rfl⟩
  | short hpc hlt => exact absurd (h.chainBuffer_eq ho (by rw [hpc]; rfl)).1 hlt
  | copied hpc hw =>
    have hbuf := (h.chainBuffer_eq ho (by rw [hpc]; rfl)).2
    exact ⟨n, h.copied hpc ((Passt.writeFrame_some hw).2.2.2.trans hbuf) ht⟩
  | @took job b size hpc hmore =>
    refine ⟨n, h.took hpc ?_ ht⟩
    rw [length_take, take_eq_take_min]
  | ended hpc hto hall =>
    replace h := h.at_pc hpc
    have hpos := h.position_eq (h.sending rfl)
    have hsent := (h.sent_all rfl).trans (append_nil _).symm
    cases hto with
    | writeable | unfinished =>
      exact ⟨n + 1, ht, h.undone_le, h.next, h.returned, hpos, nofun, nofun,
        fun hb => hb.elim (absurd rfl) nofun, hsent⟩
  | frameEnded hpc hall hm =>
    replace h := h.at_pc hpc
    have hsent := (h.sent_all rfl).trans (append_nil _).symm
    exact ⟨n + 1, ht, h.undone_le, h.next, h.returned, h.position_eq rfl, nofun, nofun,
      fun hb => hb.elim (absurd rfl) nofun, hsent⟩
  | @stopped job b pc answer hpc hto ha =>
    obtain rfl : answer = .eagain := by
      cases answer with
      | ok size => exact absurd rfl (ha size)
      | eagain => rfl
      | epipe => exact absurd rfl hf.1
      | other => exact absurd rfl hf.2
    replace h := h.at_pc hpc
    have hpos := h.position_eq (h.sending rfl)
    have hbuf := h.buffer (.inr rfl)
    -- the rest of a frame is sent only if there is one
    have hbegun := h.sending rfl
    cases hto with
    | writeableFailed | unfinishedFailed =>
      have hp : s.backend.lastPartialWriteLength ≠ 0 := bne_iff_ne.mp hbegun
      refine ⟨n, ht, h.undone_le, h.next, h.returned, hpos.trans (begun_add ?_), nofun, nofun,
        fun _ => hbuf, h.sent⟩
      omega
  | undone hpc => exact ⟨n, h.undone hpc ht rfl⟩
  | @frameStopped hand b m hpc hb hm =>
    replace h := h.at_pc hpc
    have hbuf := h.buffer (.inr rfl)
    exact ⟨n, ht, h.undone_le, h.next, h.returned, (h.position_eq rfl).trans (begun_add (by omega)),
      nofun, nofun, fun _ => hbuf, h.sent⟩
  | broken hpc ha => exact absurd hf ha
  | left hpc hcfg hnext =>
    exact ⟨n, { h.at_pc hpc with steady := ht, next := hnext.trans h.next }⟩
  | @enabled b m hpc hm => cases b <;> exact ⟨n, { h.at_pc hpc with steady := ht }⟩
  | guest hm => exact ⟨n, { h with steady := ht }⟩

end Moves

theorem Fresh.at_zero (h : s.Fresh) (hnext : s.queue.nextAvail = 0) (hsent : s.sent = [])
    (chains : ℕ → TxChain) : At chains s 0 := by
  have hpos : s.position = 0 := by rw [position, h.popped, Nat.zero_sub]
  have hbegun : s.begun = false := by rw [begun, h.idle, h.finished]; rfl
  refine ⟨h.inv.steady, ?_, ?_, ?_, ?_, ?_, ?_, ?_, ?_⟩
  · rw [h.undone, h.popped]
    exact le_refl 0
  · rw [hnext, hpos]
    rfl
  · rw [h.used, h.idle, hpos]
    rfl
  · rw [hpos, hbegun]
    rfl
  · rw [h.idle]
    nofun
  · rw [h.idle]
    nofun
  · rw [h.idle]
    exact fun hb => hb.elim (absurd h.finished) nofun
  · rw [hsent, progress, h.finished, h.idle]
    rfl

end Steps

/-- **The frames are sent in order and whole.** As long as the guest offers the chains of the
sequence and does not change those that are not returned, and the socket takes some bytes or is
full, the bytes that it has taken are the frames of the first chains, each behind its length, and a
part of the next one that is as long as was counted. -/
theorem stream_sent [LawfulGuestMemory M] {chains : ℕ → TxChain} {s₀ s : TxWorker M}
    {steps : List TxStep} (h : s₀.Fresh) (hnext : s₀.queue.nextAvail = 0) (hsent : s₀.sent = [])
    (hc : Along step (fun s e => Offers chains s ∧ e.Fine) s₀ steps)
    (hr : run step s₀ steps = some s) : Streamed chains s := by
  have hat : ∃ n, At chains s n := by
    refine along_invariant (P := fun s => ∃ n, At chains s n) ?_ ⟨0, h.at_zero hnext hsent chains⟩
      hc hr
    rintro s e s' ⟨n, hn⟩ ⟨ho, hf⟩ hs
    have hm := move_of_step hn.steady hs
    exact hn.move hm (hn.steady.move hm) ho hf
  obtain ⟨n, hn⟩ := hat
  exact hn.streamed

/-- Two frames of two bytes; the second chain is not published yet. -/
def twoFrames : TxWorker FlatMemory :=
  let s := twoChains ⟨0x100, 14, 0, 0⟩ ⟨0x110, 14, 0, 0⟩
  { s with mem := ((s.mem.put 0x82 (leBytes 2 1)).put 0x10c [1, 2]).put 0x11c [3, 4] }

def twoFrameChains (k : ℕ) : TxChain :=
  if k = 0 then ⟨⟨0, 4, 4, 0, 0x100, 14, 0, 0⟩, List.replicate 12 0 ++ [1, 2]⟩
  else ⟨⟨0, 4, 4, 1, 0x110, 14, 0, 0⟩, List.replicate 12 0 ++ [3, 4]⟩

/-- The socket is full in the middle of the first frame, the guest publishes the second chain, the
socket is full again, and the second chain is put back and taken again. -/
def fullSocket : List TxStep :=
  [.queueEvent, .disable, .start, .pop, .copy, .send (.ok 3), .send .eagain, .leave,
    .guest 0x82 [2, 0], .enable, .disable, .start, .send (.ok 3), .pop, .copy, .send .eagain,
    .leave, .enable, .disable, .start, .pop, .copy, .send (.ok 5)]

theorem stream_sent_two :
    Along step (fun s e => Offers twoFrameChains s ∧ e.Fine) twoFrames fullSocket ∧
      ∃ s, run step twoFrames fullSocket = some s ∧ Streamed twoFrameChains s ∧
        s.sent = [0, 0, 0, 2, 1, 2, 0, 0, 0, 2, 3] := by
  have hc : Along step (fun s e => Offers twoFrameChains s ∧ e.Fine) twoFrames fullSocket := by
    decide +kernel
  have hfresh : twoFrames.Fresh :=
    ⟨smallQueue_rings.congr (.refl _) fun _ => rfl, rfl, rfl, rfl, rfl, rfl, rfl⟩
  obtain ⟨s, hs, hsent⟩ : ∃ s, run step twoFrames fullSocket = some s ∧
      s.sent = [0, 0, 0, 2, 1, 2, 0, 0, 0, 2, 3] := by decide +kernel
  exact ⟨hc, s, hs, stream_sent hfresh rfl rfl hc hs, hsent⟩

end TxWorker

end Shelter.Net
