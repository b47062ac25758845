import Shelter.Memory.TryAccess
import Shelter.Virtio.DescriptorUtils
import Shelter.Virtio.Queue

/-!
# The transmit side of a console port

`process_tx` takes the chains of the transmit queue one after the other and writes their readable
descriptors to the output of the port. `try_access` resumes short writes and the closure of
`write_desc_to_output` retries when the output would block. A turn of the loop ends with the chain
in the used ring, or put back if nothing of it was written.

The output answers as it likes; `Output.answers` are its answers to come, and a turn without an
answer to its last call has not returned. The driver leaves a chain alone while the device has it,
so its descriptors and bytes are those of the memory at the start of the turn.

`sendDescs_iff`: the bytes of a chain get to the output exactly if it is complete, not empty, and
the output takes all that it is given.
-/

open Bytes

namespace Shelter.Console

open Virtio List

/-- What `write_volatile` of the output answers. `wrote n` takes `n` bytes, or all if there are not
that many. -/
inductive Answer
  | wrote (n : ℕ)
  | wouldBlock
  | error
  deriving DecidableEq, Repr

/-- The output of a port, and the interrupts that were signalled. The last two fields are a history:
the output has answered an error, or took nothing of a buffer. -/
structure Output where
  answers : List Answer
  sent : List Byte
  signals : ℕ
  failed : Bool
  refused : Bool
  deriving DecidableEq, Repr

def Output.toAnswer (sent : List Byte) (signals : ℕ) (answers : List Answer) : Output :=
  ⟨answers, sent, signals, false, false⟩

variable {M : Type} [GuestMemory M]

/-- The closure of `write_desc_to_output`. -/
def writePiece (m : M) (len addr : ℕ) : List Answer → Output → Option (Option ℕ × Output)
  | [], _ => none
  | .wrote n :: rest, o =>
    some (some (min n len),
      { o with
        answers := rest
        sent := o.sent ++ bytesAt m addr (min n len)
        refused := o.refused || (min n len == 0 && len != 0) })
  | .wouldBlock :: rest, o => writePiece m len addr rest { o with signals := o.signals + 1 }
  | .error :: rest, o => some (none, { o with answers := rest, failed := true })

variable (m : M) (d : DescriptorChain)

def writeDescToOutput [TryAccess M] (o : Output) : Option (Option ℕ × Output) :=
  tryAccess m (fun o len addr => writePiece m len addr o.answers o) d.len.toNat d.addr.toNat o

/-- The loop over the readable descriptors. The result is `bytes_written`, or `none` if the
assertion fails. -/
def sendDescs [TryAccess M] (m : M) : List DescriptorChain → ℕ → Output → Option (Option ℕ × Output)
  | [], written, o => some (some written, o)
  | d :: ds, written, o =>
    match writeDescToOutput m d o with
    | none => none
    | some (none, o') => sendDescs m ds written o'
    | some (some n, o') =>
      if n = 0 then some (some written, o')
      else if n = d.len.toNat then sendDescs m ds (written + n) o'
      else some (none, o')

/-- How a turn of a loop over a queue ends: there was no chain, the chain was put back, is in the
used ring, was refused by it, is in no ring any more, or the thread panicked. -/
inductive Turn
  | empty
  | putBack
  | used
  | rejected
  | dropped
  | panicked
  deriving DecidableEq, Repr

/-- What a turn of `process_tx` leaves. -/
structure TxTurn (M : Type) where
  mem : M
  queue : Queue
  output : Output
  head : Option DescriptorChain
  turn : Turn

/-- A turn of the loop of `process_tx`. -/
def processTx [TryAccess M] (q : Queue) (o : Output) : Option (TxTurn M) :=
  match q.pop m with
  | none => some ⟨m, q, o, none, .panicked⟩
  | some (none, q') => some ⟨m, q', { o with signals := o.signals + 1 }, none, .empty⟩
  | some (some head, q') =>
    match sendDescs m (head.intoIter.readable m) 0 o with
    | none => none
    | some (none, o') => some ⟨m, q', o', some head, .panicked⟩
    | some (some written, o') =>
      if written = 0 then some ⟨m, q'.undoPop, o', some head, .putBack⟩
      else
        match q'.addUsed m head.index (BitVec.ofNat 32 written) with
        | (.ok _, q'', m') => some ⟨m', q'', o', some head, .used⟩
        | (.error _, q'', m') => some ⟨m', q'', o', some head, .rejected⟩

/-! ## The bytes of a chain -/

def bytesOf : List Byte := reachable m d.addr.toNat d.len.toNat

def chainBytes (ds : List DescriptorChain) : List Byte :=
  (ds.filter (·.isReadOnly)).flatMap (bytesOf m)

def Stops : Prop :=
  d.isReadOnly = false ∨ d.len = 0 ∧ addressInRange m d.addr.toNat = true
  deriving Decidable

def Inside : Prop :=
  (bytesOf m d).length = d.len.toNat ∨ bytesOf m d = []
  deriving Decidable

/-- No descriptor before the one at which the loop ends reaches out of guest memory, and there are
no readable bytes behind that one. -/
def Complete (m : M) : List DescriptorChain → Prop
  | [] => True
  | d :: ds => if Stops m d then chainBytes m ds = [] else Inside m d ∧ Complete m ds

instance decidableComplete (m : M) : ∀ ds, Decidable (Complete m ds)
  | [] => isTrue trivial
  | d :: ds =>
    have := decidableComplete m ds
    inferInstanceAs (Decidable (if Stops m d then chainBytes m ds = [] else _ ∧ _))

/-- The output takes all that it is given, as far as these are its answers: the `n` bytes at `a`,
region by region, and then the buffers of `ds`. After an empty buffer there is no other one. -/
def willing (m : M) : List Answer → ℕ → ℕ → List DescriptorChain → Bool
  | [], _, _, _ => true
  | .wouldBlock :: answers, a, n, ds => willing m answers a n ds
  | .error :: _, _, _, _ => false
  | .wrote k :: answers, a, n, ds =>
    match findRegion m a with
    | none => true
    | some r =>
      let taken := min k (min (r.start + r.len - a) n)
      if n = 0 then true
      else if taken = 0 then false
      else if taken < n then willing m answers ((a + taken) % 2 ^ 64) (n - taken) ds
      else
        match ds with
        | [] => true
        | d :: ds => willing m answers d.addr.toNat d.len.toNat ds

def takesAll (m : M) (answers : List Answer) : List DescriptorChain → Bool
  | [] => true
  | d :: ds => willing m answers d.addr.toNat d.len.toNat ds

/-- The descriptors that the output is called for, if it goes on for long enough. -/
def offered (m : M) (ds : List DescriptorChain) : List DescriptorChain :=
  (ds.takeWhile (·.isReadOnly)).filter fun d => addressInRange m d.addr.toNat

section Chains

variable {m : M} {d : DescriptorChain} {ds : List DescriptorChain} {o o' : Output}

theorem chainBytes_readOnly (h : d.isReadOnly = true) :
    chainBytes m (d :: ds) = bytesOf m d ++ chainBytes m ds := by
  unfold chainBytes
  rw [filter_cons_of_pos h, flatMap_cons]

theorem chainBytes_writable (h : d.isReadOnly = false) :
    chainBytes m (d :: ds) = chainBytes m ds := by
  unfold chainBytes
  rw [filter_cons_of_neg (by simp [h])]

theorem complete_cons_of_stops (h : Stops m d) : Complete m (d :: ds) ↔ chainBytes m ds = [] := by
  rw [Complete, if_pos h]

theorem complete_cons (h : ¬ Stops m d) : Complete m (d :: ds) ↔ Inside m d ∧ Complete m ds := by
  rw [Complete, if_neg h]

/-- The output has neither failed nor refused anything since. -/
structure Calm (o o' : Output) : Prop where
  failed : o'.failed = o.failed
  refused : o'.refused = o.refused

/-- How `write_desc_to_output` ends: everything is written, there is nothing to write, the output
refuses the rest, the range leaves guest memory, it starts outside, or the output fails. -/
inductive DescEnd (m : M) (d : DescriptorChain) (o o' : Output) : Option ℕ → Prop
  | full (hpos : 0 < d.len.toNat) (hall : (bytesOf m d).length = d.len.toNat)
      (hsent : o'.sent = o.sent ++ bytesOf m d) (hcalm : Calm o o') :
      DescEnd m d o o' (some d.len.toNat)
  | empty (hzero : d.len = 0) (hin : addressInRange m d.addr.toNat = true)
      (hsent : o'.sent = o.sent) (hcalm : Calm o o') : DescEnd m d o o' (some 0)
  | refused {part : List Byte} (hlt : part.length < (bytesOf m d).length)
      (hsent : o'.sent = o.sent ++ part) (hfailed : o'.failed = o.failed)
      (hrefused : o'.refused = true) : DescEnd m d o o' (some part.length)
  | cut (hpos : bytesOf m d ≠ []) (hlt : (bytesOf m d).length < d.len.toNat)
      (hsent : o'.sent = o.sent ++ bytesOf m d) (hcalm : Calm o o') :
      DescEnd m d o o' (some (bytesOf m d).length)
  | outside (hout : addressInRange m d.addr.toNat = false) (hsent : o'.sent = o.sent)
      (hcalm : Calm o o') : DescEnd m d o o' none
  | failed {part : List Byte} (hsent : o'.sent = o.sent ++ part) (hfailed : o'.failed = true)
      (hrefused : o'.refused = o.refused) : DescEnd m d o o' none

theorem Calm.refl (o : Output) : Calm o o := ⟨rfl, rfl⟩

variable {len written : ℕ} {res : Option ℕ}

theorem writePiece_cases {addr : ℕ} {answers : List Answer}
    (h : writePiece m len addr answers o = some (res, o')) :
    (res = none ∧ o'.sent = o.sent ∧ o'.failed = true ∧ o'.refused = o.refused) ∨
      ∃ k ≤ len, res = some k ∧ o'.sent = o.sent ++ bytesAt m addr k ∧ o'.failed = o.failed ∧
        o'.refused = (o.refused || (k == 0 && len != 0)) := by
  induction answers generalizing o with
  | nil => cases h
  | cons a rest ih =>
    cases a with
    | wrote n =>
      cases h
      exact .inr ⟨min n len, Nat.min_le_right _ _, rfl, rfl, rfl, rfl⟩
    | wouldBlock =>
      have hrest := ih h
      exact hrest
    | error =>
      cases h
      exact .inl ⟨rfl, rfl, rfl, rfl⟩

/-- The walk has written `total` bytes and stands before the others. -/
structure Sending (m : M) (d : DescriptorChain) (o : Output) (total cur : ℕ) (t : Output) :
    Prop where
  calm : Calm o t
  start : total = 0 → cur = d.addr.toNat
  sent : ∃ part, part.length = total ∧ t.sent = o.sent ++ part ∧
    bytesOf m d = part ++ reachable m cur (d.len.toNat - total)

theorem Sending.piece [LawfulGuestMemory M] {total cur k : ℕ} {t t' : Output} {r : Region}
    (h : Sending m d o total cur t) (hr : findRegion m cur = some r)
    (hlen : len = min (r.start + r.len - cur) (d.len.toNat - total))
    (hw : writePiece m len cur t.answers t = some (some k, t')) :
    k ≤ len ∧ (0 < k → Sending m d o (total + k) ((cur + k) % 2 ^ 64) t') := by
  obtain ⟨⟨⟩, _⟩ | ⟨j, hle, hj, hsent, hfailed, hrefused⟩ := writePiece_cases hw
  cases hj
  refine ⟨hle, fun hpos => ⟨⟨?_, ?_⟩, fun h0 => absurd h0 (by omega), ?_⟩⟩
  · rw [hfailed, h.calm.failed]
  · rw [hrefused, h.calm.refused]
    have : (k == 0) = false := by simpa using hpos.ne'
    rw [this, Bool.false_and, Bool.or_false]
  · obtain ⟨part, hlen', hpart, hbytes⟩ := h.sent
    subst hlen
    refine ⟨part ++ bytesAt m cur k, by simp [hlen'], by rw [hsent, hpart, append_assoc], ?_⟩
    rw [hbytes, reachable_split hr hle, append_assoc, Nat.sub_sub]

theorem writeDescToOutput_cases [LawfulGuestMemory M] [TryAccess M] [LawfulTryAccess M]
    (h : writeDescToOutput m d o = some (res, o')) : DescEnd m d o o' res := by
  have h0 : Sending m d o 0 d.addr.toNat o := ⟨.refl o, fun _ => rfl, [], rfl, by simp, rfl⟩
  obtain ⟨total, cur, t, ht, hend⟩ := tryAccess_cases (P := Sending m d o)
    (fun total cur t r k t' ht hr hw => ht.piece hr rfl hw) h0 h
  obtain ⟨hcalm, hstart, part, hlen, hsent, hbytes⟩ := ht
  generalize hpair : (res, o') = pair at hend
  cases hend with
  | failed hr hlt hf =>
    cases hpair
    obtain ⟨_, hs, hfail, href⟩ | ⟨k, _, ⟨⟩, _⟩ := writePiece_cases hf
    · exact .failed (hs.trans hsent) hfail (href.trans hcalm.refused)
  | @stopped total' _ _ _ r hr hlt hf =>
    cases hpair
    obtain ⟨⟨⟩, _⟩ | ⟨k, _, hk, hs, hfail, href⟩ := writePiece_cases hf
    cases hk
    rw [show bytesAt m cur 0 = [] from rfl, append_nil] at hs
    have hin : addressInRange m cur = true := addressInRange_iff.mpr ⟨r, hr⟩
    have hroom := (LawfulGuestMemory.find_contains hr).2
    by_cases hmore : total < d.len.toNat
    · -- the output took nothing of a buffer that is not empty
      have hne : reachable m cur (d.len.toNat - total) ≠ [] := reachable_ne_nil hin (by omega)
      have hpos : min (r.start + r.len - cur) (d.len.toNat - total) ≠ 0 := by omega
      rw [← hlen]
      refine .refused ?_ (hs.trans hsent) (hfail.trans hcalm.failed) ?_
      · rw [hbytes, length_append]
        have := length_pos_iff.mpr hne
        omega
      · rw [href]
        simp [hpos]
    · obtain rfl : total = 0 := by omega
      obtain rfl := hstart rfl
      obtain rfl := length_eq_zero_iff.mp hlen
      have hzero : d.len.toNat = 0 := by omega
      refine .empty (BitVec.eq_of_toNat_eq hzero) hin (by simpa using hs.trans hsent) ⟨?_, ?_⟩
      · exact hfail.trans hcalm.failed
      · rw [href, hzero]
        simpa using hcalm.refused
  | hole hr hlt =>
    cases hpair
    rw [reachable_hole hr, append_nil] at hbytes
    by_cases hzero : total = 0
    · obtain rfl := hzero
      obtain rfl := hstart rfl
      obtain rfl := length_eq_zero_iff.mp hlen
      refine .outside ?_ (by simpa using hsent) hcalm
      unfold addressInRange
      rw [hr]
      rfl
    · rw [if_neg hzero, ← hlen, ← hbytes]
      rw [← hbytes] at hlen hsent
      exact .cut (fun hnil => hzero (by rw [← hlen, hnil]; rfl)) (by omega) hsent hcalm
  | full hpos =>
    cases hpair
    rw [Nat.sub_self, reachable, append_nil] at hbytes
    rw [← hbytes] at hlen hsent
    exact .full hpos hlen hsent hcalm

/-- What an output that has failed or refused something never takes back, and how much was written
at least. -/
theorem sendDescs_grows [LawfulGuestMemory M] [TryAccess M] [LawfulTryAccess M]
    (h : sendDescs m ds written o = some (res, o')) :
    (o.failed = true → o'.failed = true) ∧
      ∃ part, o'.sent = o.sent ++ part ∧ ∀ w ∈ res, w ≤ written + part.length := by
  induction ds generalizing written o with
  | nil =>
    cases h
    exact ⟨id, [], by simp, by simp⟩
  | cons d ds ih =>
    rw [sendDescs] at h
    rcases hd : writeDescToOutput m d o with _ | ⟨n, o₁⟩
    · simp [hd] at h
    have hend := writeDescToOutput_cases hd
    have hfirst : (o.failed = true → o₁.failed = true) ∧
        ∃ part, o₁.sent = o.sent ++ part ∧ ∀ k ∈ n, k ≤ part.length := by
      cases hend with
      | full hpos hall hsent hcalm => exact ⟨hcalm.failed.trans, _, hsent, by simp [hall]⟩
      | empty hzero hin hsent hcalm =>
        exact ⟨hcalm.failed.trans, [], by simpa using hsent, by simp⟩
      | refused hlt hsent hfailed hrefused => exact ⟨hfailed.trans, _, hsent, by simp⟩
      | cut hpos hlt hsent hcalm => exact ⟨hcalm.failed.trans, _, hsent, by simp⟩
      | outside hout hsent hcalm =>
        exact ⟨hcalm.failed.trans, [], by simpa using hsent, by simp⟩
      | failed hsent hfailed hrefused => exact ⟨fun _ => hfailed, _, hsent, by simp⟩
    obtain ⟨hmono, part, hsent, hle⟩ := hfirst
    -- the rest of the loop, if it goes on
    have hrest : ∀ {w : ℕ}, sendDescs m ds w o₁ = some (res, o') → w ≤ written + part.length →
        (o.failed = true → o'.failed = true) ∧
          ∃ part, o'.sent = o.sent ++ part ∧ ∀ w ∈ res, w ≤ written + part.length := by
      intro w hs hw
      obtain ⟨hmono', part', hsent', hle'⟩ := ih hs
      refine ⟨fun hf => hmono' (hmono hf), part ++ part', ?_, fun x hx => ?_⟩
      · rw [hsent', hsent, append_assoc]
      · have := hle' x hx
        rw [length_append]
        omega
    cases n with
    | none =>
      simp only [hd] at h
      exact hrest h (by omega)
    | some n =>
      simp only [hd] at h
      have hn := hle n rfl
      split at h
      · cases h
        exact ⟨hmono, part, hsent, by simp⟩
      · split_ifs at h with hall
        · exact hrest h (by omega)
        · cases h
          exact ⟨hmono, part, hsent, by simp⟩

/-- The loop over a chain: everything is written, or the loop panics or comes short. -/
inductive SendEnd (m : M) (ds : List DescriptorChain) (written : ℕ) (o o' : Output) :
    Option ℕ → Prop
  | whole (hrefused : o'.refused = false) (hcomplete : Complete m ds)
      (hsent : o'.sent = o.sent ++ chainBytes m ds) :
      SendEnd m ds written o o' (some (written + (chainBytes m ds).length))
  | short {res : Option ℕ} (hwhy : o'.refused = true ∨ ¬ Complete m ds)
      (hless : ∀ w ∈ res, ∃ part, o'.sent = o.sent ++ part ∧
        part.length < (chainBytes m ds).length) : SendEnd m ds written o o' res

theorem SendEnd.cons {w : ℕ} {o₁ : Output} (hro : d.isReadOnly = true) (hstop : ¬ Stops m d)
    (hinside : Inside m d) (hsent : o₁.sent = o.sent ++ bytesOf m d)
    (hw : w = written + (bytesOf m d).length) (h : SendEnd m ds w o₁ o' res) :
    SendEnd m (d :: ds) written o o' res := by
  have hbytes : chainBytes m (d :: ds) = bytesOf m d ++ chainBytes m ds := chainBytes_readOnly hro
  cases h with
  | whole hrefused hcomplete hs =>
    have hall : w + (chainBytes m ds).length = written + (chainBytes m (d :: ds)).length := by
      rw [hbytes, length_append]
      omega
    rw [hall]
    refine .whole hrefused ((complete_cons hstop).mpr ⟨hinside, hcomplete⟩) ?_
    rw [hs, hsent, hbytes, append_assoc]
  | short hwhy hless =>
    refine .short (hwhy.imp_right fun hc hc' => hc ((complete_cons hstop).mp hc').2) ?_
    intro x hx
    obtain ⟨part, hpart, hlt⟩ := hless x hx
    refine ⟨bytesOf m d ++ part, by rw [hpart, hsent, append_assoc], ?_⟩
    rw [hbytes, length_append, length_append]
    omega

theorem SendEnd.stop (hstop : Stops m d) (hbytes : chainBytes m (d :: ds) = chainBytes m ds)
    (hsent : o'.sent = o.sent) (hrefused : o'.refused = false) :
    SendEnd m (d :: ds) written o o' (some written) := by
  by_cases hnil : chainBytes m ds = []
  · have hwhole : SendEnd m (d :: ds) written o o' _ :=
      .whole hrefused ((complete_cons_of_stops hstop).mpr hnil) (by rw [hbytes, hnil, hsent]; simp)
    rw [hbytes, hnil] at hwhole
    exact hwhole
  · refine .short (.inr fun hc => hnil ((complete_cons_of_stops hstop).mp hc)) ?_
    intro w _
    exact ⟨[], by simpa using hsent, by rw [hbytes]; exact length_pos_iff.mpr hnil⟩

/-- A readable descriptor with bytes, or outside guest memory, does not end the loop. -/
theorem not_stops (hro : d.isReadOnly = true)
    (h : d.len ≠ 0 ∨ addressInRange m d.addr.toNat = false) : ¬ Stops m d := by
  rintro (hw | ⟨hzero, hin⟩)
  · cases hro.symm.trans hw
  · rcases h with h | h
    · exact h hzero
    · cases h.symm.trans hin

theorem sendDescs_end [LawfulGuestMemory M] [TryAccess M] [LawfulTryAccess M]
    (h : sendDescs m (ds.takeWhile (·.isReadOnly)) written o = some (res, o'))
    (hrefused : o.refused = false) (hfailed : o'.failed = false) :
    SendEnd m ds written o o' res := by
  induction ds generalizing written o with
  | nil =>
    cases h
    exact .whole hrefused trivial (by simp [chainBytes])
  | cons d ds ih =>
    cases hro : d.isReadOnly with
    | false =>
      rw [takeWhile_cons_of_neg (by simp [hro])] at h
      cases h
      exact .stop (.inl hro) (chainBytes_writable hro) rfl hrefused
    | true =>
      rw [takeWhile_cons_of_pos (by simpa using hro), sendDescs] at h
      have hbytes : chainBytes m (d :: ds) = bytesOf m d ++ chainBytes m ds :=
        chainBytes_readOnly hro
      rcases hd : writeDescToOutput m d o with _ | ⟨n, o₁⟩
      · simp [hd] at h
      cases writeDescToOutput_cases hd with
      | full hpos hall hsent hcalm =>
        simp only [hd, if_neg hpos.ne'] at h
        have hrest := ih h (hcalm.refused.trans hrefused)
        have hne : d.len ≠ 0 := fun hzero => absurd (hzero ▸ hpos) (by decide)
        exact hrest.cons hro (not_stops hro (.inl hne)) (.inl hall) hsent (by rw [hall])
      | empty hzero hin hsent hcalm =>
        simp only [hd, if_pos] at h
        cases h
        have hnone : bytesOf m d = [] := by
          unfold bytesOf
          rw [hzero]
          rfl
        rw [hnone, nil_append] at hbytes
        exact .stop (.inr ⟨hzero, hin⟩) hbytes hsent (hcalm.refused.trans hrefused)
      | @refused part hlt hsent hfail hrefuse =>
        have hle : (bytesOf m d).length ≤ d.len.toNat := length_reachable_le _ _ _
        by_cases hzero : part.length = 0
        · simp only [hd, if_pos hzero] at h
          cases h
          refine .short (.inl hrefuse) fun w _ => ⟨part, hsent, ?_⟩
          rw [hbytes, length_append]
          omega
        · simp only [hd, if_neg hzero] at h
          cases (if_neg (by omega)).symm.trans h
          exact .short (.inl hrefuse) fun w hw => by cases hw
      | cut hpos hlt hsent hcalm =>
        have hne : (bytesOf m d).length ≠ 0 := (length_pos_iff.mpr hpos).ne'
        simp only [hd, if_neg hne] at h
        cases (if_neg (by omega)).symm.trans h
        have hzero : d.len ≠ 0 := fun hzero => absurd (hzero ▸ hlt) (by simp)
        have hstop := not_stops (m := m) hro (.inl hzero)
        refine .short (.inr fun hc => ?_) fun w hw => by cases hw
        rcases ((complete_cons hstop).mp hc).1 with hall | hnil
        · omega
        · exact hpos hnil
      | outside hout hsent hcalm =>
        simp only [hd] at h
        have hnone : bytesOf m d = [] := by
          refine reachable_hole ?_ _
          unfold addressInRange at hout
          rwa [Option.isSome_eq_false_iff, Option.isNone_iff_eq_none] at hout
        have hrest := ih h (hcalm.refused.trans hrefused)
        exact hrest.cons hro (not_stops hro (.inr hout)) (.inr hnone)
          (by rw [hnone, hsent]; simp) (by rw [hnone]; rfl)
      | failed hsent hfail hrefuse =>
        simp only [hd] at h
        cases hfailed.symm.trans ((sendDescs_grows h).1 hfail)

/-! ## The answers -/

theorem writePiece_willing {addr : ℕ} {answers : List Answer}
    (h : writePiece m len addr answers o = some (res, o')) (cur n : ℕ) (ds : List DescriptorChain) :
    (res = none ∧ willing m answers cur n ds = false) ∨
      ∃ k, res = some (min k len) ∧
        willing m answers cur n ds = willing m (.wrote k :: o'.answers) cur n ds := by
  induction answers generalizing o with
  | nil => cases h
  | cons a rest ih =>
    cases a with
    | wrote k =>
      cases h
      exact .inr ⟨k, rfl, rfl⟩
    | wouldBlock => exact ih h
    | error =>
      cases h
      exact .inl ⟨rfl, rfl⟩

theorem willing_cons (m : M) (k : ℕ) (answers : List Answer) (a n : ℕ) (ds : List DescriptorChain) :
    willing m (.wrote k :: answers) a n ds =
      match findRegion m a with
      | none => true
      | some r =>
        let taken := min k (min (r.start + r.len - a) n)
        if n = 0 then true
        else if taken = 0 then false
        else if taken < n then willing m answers ((a + taken) % 2 ^ 64) (n - taken) ds
        else takesAll m answers ds := by
  cases ds <;> rfl

theorem willing_wrote {cur n k : ℕ} {answers : List Answer} {r : Region}
    (hr : findRegion m cur = some r) (hn : n ≠ 0)
    (hk : min k (min (r.start + r.len - cur) n) ≠ 0) :
    willing m (.wrote k :: answers) cur n ds =
      if min k (min (r.start + r.len - cur) n) < n then
        willing m answers ((cur + min k (min (r.start + r.len - cur) n)) % 2 ^ 64)
          (n - min k (min (r.start + r.len - cur) n)) ds
      else takesAll m answers ds := by
  rw [willing_cons, hr]
  simp only [if_neg hn, if_neg hk]

section Access

variable [LawfulGuestMemory M] [TryAccess M] [LawfulTryAccess M]

omit [LawfulGuestMemory M] in
theorem writeDescToOutput_hole (hout : addressInRange m d.addr.toNat = false)
    (h : writeDescToOutput m d o = some (res, o')) : res = none ∧ o' = o := by
  have hnone : findRegion m d.addr.toNat = none := by
    unfold addressInRange at hout
    rwa [Option.isSome_eq_false_iff, Option.isNone_iff_eq_none] at hout
  obtain ⟨total, cur, t, ⟨htotal, rfl, rfl⟩, hend⟩ := tryAccess_cases
    (P := fun total cur t => total = 0 ∧ cur = d.addr.toNat ∧ t = o)
    (fun total cur t r k t' ht hr _ => by
      obtain ⟨-, rfl, -⟩ := ht
      cases hnone.symm.trans hr) ⟨rfl, rfl, rfl⟩ h
  generalize hpair : (res, o') = pair at hend
  cases hend with
  | failed hr | stopped hr => cases hnone.symm.trans hr
  | hole =>
    cases hpair
    exact ⟨if_pos htotal, rfl⟩
  | full hpos => omega

omit [LawfulGuestMemory M] in
/-- An empty buffer is refused only with an error. -/
theorem willing_empty (hin : addressInRange m d.addr.toNat = true) (hzero : d.len.toNat = 0)
    (hf : o.failed = false) (h : writeDescToOutput m d o = some (res, o')) :
    willing m o.answers d.addr.toNat d.len.toNat ds = !o'.failed := by
  obtain ⟨r, hr⟩ := addressInRange_iff.mp hin
  obtain ⟨total, cur, t, ⟨htotal, rfl, rfl⟩, hend⟩ := tryAccess_cases
    (P := fun total cur t => total = 0 ∧ cur = d.addr.toNat ∧ t = o)
    (fun total cur t r k t' ht hr hw => by
      obtain ⟨⟨⟩, -⟩ | ⟨j, hle, hj, -⟩ := writePiece_cases hw
      cases hj
      exact ⟨hle, fun hpos => absurd hle (by omega)⟩) ⟨rfl, rfl, rfl⟩ h
  generalize hpair : (res, o') = pair at hend
  cases hend with
  | failed _ _ hw =>
    cases hpair
    obtain ⟨-, hwill⟩ | ⟨k, ⟨⟩, -⟩ := writePiece_willing hw d.addr.toNat d.len.toNat ds
    obtain ⟨-, -, hfail, -⟩ | ⟨k, -, ⟨⟩, -⟩ := writePiece_cases hw
    rw [hwill, hfail]
    rfl
  | stopped _ _ hw =>
    cases hpair
    obtain ⟨⟨⟩, -⟩ | ⟨k, -, hwill⟩ := writePiece_willing hw d.addr.toNat d.len.toNat ds
    obtain ⟨⟨⟩, -⟩ | ⟨j, -, -, -, hfail, -⟩ := writePiece_cases hw
    rw [hwill, hfail, hf, willing_cons, hr]
    simp [hzero]
  | hole hnone => cases hnone.symm.trans hr
  | full hpos => omega

/-- The answers for a descriptor are good as far as the output does not fail or refuse anything. -/
theorem willing_desc (hpos : 0 < d.len.toNat)
    (hall : (bytesOf m d).length = d.len.toNat) (hf : o.failed = false) (hr : o.refused = false)
    (h : writeDescToOutput m d o = some (res, o')) :
    willing m o.answers d.addr.toNat d.len.toNat ds =
      (!o'.failed && !o'.refused && takesAll m o'.answers ds) := by
  -- what is left to be answered, when `total` bytes are written
  have h0 : Sending m d o 0 d.addr.toNat o ∧ willing m o.answers d.addr.toNat d.len.toNat ds =
      if 0 < d.len.toNat then willing m o.answers d.addr.toNat (d.len.toNat - 0) ds
      else takesAll m o.answers ds :=
    ⟨⟨.refl o, fun _ => rfl, [], rfl, by simp, rfl⟩, by rw [if_pos hpos, Nat.sub_zero]⟩
  obtain ⟨total, cur, t, ⟨hsend, hwill⟩, hend⟩ := tryAccess_cases
    (P := fun total cur t => Sending m d o total cur t ∧
      willing m o.answers d.addr.toNat d.len.toNat ds =
        if total < d.len.toNat then willing m t.answers cur (d.len.toNat - total) ds
        else takesAll m t.answers ds)
    (fun total cur t r k t' ht hr hw => by
      obtain ⟨hle, hstep⟩ := ht.1.piece hr rfl hw
      refine ⟨hle, fun hk => ⟨hstep hk, ht.2.trans ?_⟩⟩
      obtain ⟨⟨⟩, -⟩ | ⟨j, hj, hnext⟩ := writePiece_willing hw cur (d.len.toNat - total) ds
      obtain rfl := Option.some.inj hj
      rw [if_pos (by omega), hnext, willing_wrote hr (by omega) (by omega)]
      by_cases hmore : total + min j (min (r.start + r.len - cur) (d.len.toNat - total)) <
          d.len.toNat
      · rw [if_pos (by omega), if_pos hmore, Nat.sub_sub]
      · rw [if_neg (by omega), if_neg hmore]) h0 h
  have hcalm := hsend.calm
  generalize hpair : (res, o') = pair at hend
  cases hend with
  | failed _ hlt hw =>
    cases hpair
    obtain ⟨-, hbad⟩ | ⟨k, ⟨⟩, -⟩ := writePiece_willing hw cur (d.len.toNat - total) ds
    obtain ⟨-, -, hfail, -⟩ | ⟨k, -, ⟨⟩, -⟩ := writePiece_cases hw
    rw [hwill, if_pos (by omega), hbad, hfail]
    rfl
  | @stopped _ _ _ _ r hreg hlt hw =>
    cases hpair
    have hroom := (LawfulGuestMemory.find_contains hreg).2
    obtain ⟨⟨⟩, -⟩ | ⟨k, hk, hnext⟩ := writePiece_willing hw cur (d.len.toNat - total) ds
    obtain ⟨⟨⟩, -⟩ | ⟨j, -, hj, -, -, hrefused⟩ := writePiece_cases hw
    cases hj
    have hzero : min k (min _ _) = 0 := (Option.some.inj hk).symm
    have hne : d.len.toNat - total ≠ 0 := by omega
    rw [hwill, if_pos (by omega), hnext, willing_cons, hreg, hrefused]
    simp only [if_neg hne, hzero, if_true]
    have hpiece : (min (r.start + r.len - cur) (d.len.toNat - total) != 0) = true :=
      bne_iff_ne.mpr (by omega)
    rw [hpiece]
    simp
  | hole hnone hlt =>
    obtain ⟨part, hlen, -, hbytes⟩ := hsend.sent
    rw [reachable_hole hnone, append_nil] at hbytes
    rw [hbytes] at hall
    rcases hlt with hlt | hzero
    · omega
    · omega
  | full =>
    cases hpair
    rw [hwill, if_neg (lt_irrefl _), hcalm.failed, hcalm.refused, hf, hr]
    rfl

/-- An empty buffer ends the chain, or the output fails at it. -/
theorem willing_empty_last (hin : addressInRange m d.addr.toNat = true) (hzero : d.len.toNat = 0)
    (hf : o.failed = false) (hr : o.refused = false) {n : Option ℕ} {o₁ : Output}
    (hd : writeDescToOutput m d o = some (n, o₁)) {rest : List DescriptorChain}
    (h : sendDescs m (d :: rest) written o = some (res, o')) :
    willing m o.answers d.addr.toNat d.len.toNat ds = (!o'.failed && !o'.refused) := by
  rw [willing_empty hin hzero hf hd]
  rw [sendDescs] at h
  cases writeDescToOutput_cases hd with
  | full hpos => omega
  | empty _ _ _ hcalm =>
    simp only [hd, if_pos] at h
    cases h
    rw [hcalm.refused, hr]
    simp
  | refused hlt =>
    have hle : (bytesOf m d).length ≤ d.len.toNat := length_reachable_le _ _ _
    omega
  | cut _ hlt => omega
  | outside hout => cases hin.symm.trans hout
  | failed _ hfail =>
    simp only [hd] at h
    rw [hfail, (sendDescs_grows h).1 hfail]
    rfl

/-- After a buffer that is not empty and all mapped, the chain goes on, unless the output has failed
or refused something. -/
theorem sendDescs_goes_on (hin : addressInRange m d.addr.toNat = true) (hpos : 0 < d.len.toNat)
    (hall : (bytesOf m d).length = d.len.toNat) (hf : o.failed = false) (hr : o.refused = false)
    {n : Option ℕ} {o₁ : Output} (hd : writeDescToOutput m d o = some (n, o₁))
    {rest : List DescriptorChain} (h : sendDescs m (d :: rest) written o = some (res, o')) :
    (o₁.failed = false ∧ o₁.refused = false ∧
        ∃ written', sendDescs m rest written' o₁ = some (res, o')) ∨
      ((!o₁.failed && !o₁.refused) = false ∧ (!o'.failed && !o'.refused) = false) := by
  rw [sendDescs] at h
  cases writeDescToOutput_cases hd with
  | full _ _ _ hcalm =>
    simp only [hd, if_neg hpos.ne'] at h
    exact .inl ⟨hcalm.failed.trans hf, hcalm.refused.trans hr, _, h⟩
  | empty hzero => exact absurd (hzero ▸ hpos) (by decide)
  | @refused part hlt _ _ hrefuse =>
    have hend : o' = o₁ := by
      by_cases hnil : part.length = 0
      · simp only [hd, if_pos hnil] at h
        cases h
        rfl
      · simp only [hd, if_neg hnil] at h
        cases (if_neg (by omega)).symm.trans h
        rfl
    exact .inr (by simp [hend, hrefuse])
  | cut _ hlt => omega
  | outside hout => cases hin.symm.trans hout
  | failed _ hfail =>
    simp only [hd] at h
    exact .inr (by simp [hfail, (sendDescs_grows h).1 hfail])

/-- For a complete chain, the output neither fails nor refuses anything exactly if its answers are
those of one that takes all that it is given. -/
theorem sendDescs_takesAll
    (h : sendDescs m (ds.takeWhile (·.isReadOnly)) written o = some (res, o'))
    (hf : o.failed = false) (hr : o.refused = false) (hc : Complete m ds) :
    takesAll m o.answers (offered m ds) = (!o'.failed && !o'.refused) := by
  induction ds generalizing written o with
  | nil =>
    cases h
    rw [hf, hr]
    rfl
  | cons d ds ih =>
    cases hro : d.isReadOnly with
    | false =>
      rw [takeWhile_cons_of_neg (by simp [hro])] at h
      cases h
      rw [offered, takeWhile_cons_of_neg (by simp [hro]), hf, hr]
      rfl
    | true =>
      rw [takeWhile_cons_of_pos (by simpa using hro)] at h
      rw [offered, takeWhile_cons_of_pos (by simpa using hro)]
      rcases hd : writeDescToOutput m d o with _ | ⟨n, o₁⟩
      · simp [sendDescs, hd] at h
      cases hin : addressInRange m d.addr.toNat with
      | false =>
        obtain ⟨rfl, rfl⟩ := writeDescToOutput_hole hin hd
        rw [filter_cons_of_neg (by simp [hin])]
        simp only [sendDescs, hd] at h
        exact ih h hf hr ((complete_cons (not_stops hro (.inr hin))).mp hc).2
      | true =>
        rw [filter_cons_of_pos (by simpa using hin), takesAll]
        rcases Nat.eq_zero_or_pos d.len.toNat with hzero | hpos
        · exact willing_empty_last hin hzero hf hr hd h
        · have hne : d.len ≠ 0 := fun hzero => absurd (hzero ▸ hpos) (by decide)
          obtain ⟨hinside, hrest⟩ := (complete_cons (not_stops hro (.inl hne))).mp hc
          have hall : (bytesOf m d).length = d.len.toNat :=
            hinside.resolve_right (reachable_ne_nil hin hpos)
          rw [willing_desc hpos hall hf hr hd]
          obtain ⟨hf₁, hr₁, written', h'⟩ | ⟨hbad₁, hbad⟩ :=
            sendDescs_goes_on hin hpos hall hf hr hd h
          · have hih := ih h' hf₁ hr₁ hrest
            rw [offered] at hih
            rw [hih, hf₁, hr₁]
            rfl
          · rw [hbad₁, hbad]
            rfl

end Access

/-- A chain gets to the output, with something to report to the used ring, exactly if it is
complete, not empty, and the output takes all that it is given. -/
theorem sendDescs_iff [LawfulGuestMemory M] [TryAccess M] [LawfulTryAccess M]
    (h : sendDescs m (ds.takeWhile (·.isReadOnly)) 0 o = some (res, o'))
    (hf : o.failed = false) (hrefused : o.refused = false) :
    (∃ w, res = some w ∧ w ≠ 0 ∧
        o'.sent = o.sent ++ if o'.failed = true then [] else chainBytes m ds) ↔
      takesAll m o.answers (offered m ds) = true ∧ Complete m ds ∧ chainBytes m ds ≠ [] := by
  have hanswers : (takesAll m o.answers (offered m ds) = true ∧ Complete m ds ∧
      chainBytes m ds ≠ []) ↔
      o'.failed = false ∧ o'.refused = false ∧ Complete m ds ∧ chainBytes m ds ≠ [] := by
    rw [← and_assoc (b := o'.refused = false)]
    refine and_congr_left fun hc => ?_
    rw [sendDescs_takesAll h hf hrefused hc.1]
    simp
  rw [hanswers]
  constructor
  · rintro ⟨w, rfl, hw, hsent⟩
    cases hfailed : o'.failed with
    | true =>
      -- something was written, and none of it is to be there
      rw [hfailed, if_pos rfl, append_nil] at hsent
      obtain ⟨_, part, hpart, hle⟩ := sendDescs_grows h
      rw [hsent, self_eq_append_right] at hpart
      have := hle w rfl
      rw [hpart] at this
      exact absurd this (by simpa using hw)
    | false =>
      rw [hfailed, if_neg (by simp)] at hsent
      generalize hres : some w = res at h
      cases sendDescs_end h hrefused hfailed with
      | whole hr hc hs =>
        refine ⟨rfl, hr, hc, fun hnil => hw ?_⟩
        rw [hnil] at hres
        simpa using hres
      | short hwhy hless =>
        obtain ⟨part, hpart, hlt⟩ := hless w hres.symm
        rw [hsent] at hpart
        rw [append_cancel_left hpart] at hlt
        exact absurd hlt (lt_irrefl _)
  · rintro ⟨hfailed, hr, hc, hne⟩
    cases sendDescs_end h hrefused hfailed with
    | whole _ _ hs =>
      refine ⟨_, rfl, ?_, ?_⟩
      · simpa using hne
      · rw [hfailed, if_neg (by simp)]
        exact hs
    | short hwhy _ =>
      rcases hwhy with hwhy | hwhy
      · cases hr.symm.trans hwhy
      · exact absurd hc hwhy

end Chains

/-! ## A turn -/

def popped (q : Queue) : Queue := { q with nextAvail := q.nextAvail + 1 }

/-- What a turn can do when the rings are mapped. -/
inductive TxTurned [TryAccess M] (m : M) (q : Queue) (o : Output) : TxTurn M → Prop
  | empty (hpop : q.pop m = some (none, q)) :
      TxTurned m q o ⟨m, q, { o with signals := o.signals + 1 }, none, .empty⟩
  | panicked {head : DescriptorChain} {o' : Output} (hpop : q.pop m = some (some head, popped q))
      (hsend : sendDescs m (head.intoIter.readable m) 0 o = some (none, o')) :
      TxTurned m q o ⟨m, popped q, o', some head, .panicked⟩
  | putBack {head : DescriptorChain} {o' : Output} (hpop : q.pop m = some (some head, popped q))
      (hsend : sendDescs m (head.intoIter.readable m) 0 o = some (some 0, o')) :
      TxTurned m q o ⟨m, q, o', some head, .putBack⟩
  | used {head : DescriptorChain} {o' : Output} {w : ℕ} {m' : M}
      (hpop : q.pop m = some (some head, popped q))
      (hsend : sendDescs m (head.intoIter.readable m) 0 o = some (some w, o')) (hw : w ≠ 0)
      (hadd : (popped q).addUsed m head.index (BitVec.ofNat 32 w) =
        (.ok (), (popped q).bumpUsed, m'))
      (hlayout : SameLayout m m') :
      TxTurned m q o ⟨m', (popped q).bumpUsed, o', some head, .used⟩

section Turns

variable {m : M} {q : Queue} {o : Output} [TryAccess M]

theorem undoPop_popped (q : Queue) : (popped q).undoPop = q := by
  have h : q.nextAvail + 1 - 1 = q.nextAvail := by bv_omega
  unfold popped Queue.undoPop
  simp only [h]

theorem popped_config (q : Queue) : q.SameConfig (popped q) := .withNextAvail q _

variable {t : TxTurn M}

theorem processTx_cases [LawfulGuestMemory M] (hrings : q.RingsMapped m)
    (h : processTx m q o = some t) : TxTurned m q o t := by
  unfold processTx at h
  obtain ⟨r, hpop⟩ := Queue.pop_isSome hrings
  obtain rfl | ⟨head, rfl, hlt⟩ := Queue.pop_cases hpop
  · simp only [hpop] at h
    cases h
    exact .empty hpop
  · change q.pop m = some (some head, popped q) at hpop
    simp only [hpop] at h
    rcases hsend : sendDescs m (head.intoIter.readable m) 0 o with _ | ⟨_ | w, o'⟩ <;>
      simp only [hsend] at h
    · cases h
    · cases h
      exact .panicked hpop hsend
    · split_ifs at h with hw
      · cases h
        rw [undoPop_popped]
        exact .putBack hpop (hw ▸ hsend)
      · have hrings' := hrings.congr (popped_config q) (.refl m)
        obtain ⟨m', hadd, hlayout, -⟩ :=
          Queue.addUsed_run hrings' (show head.index < (popped q).size from hlt)
            (BitVec.ofNat 32 w)
        simp only [hadd] at h
        cases h
        exact .used hpop hsend hw hadd hlayout

theorem TxTurned.rings (hrings : q.RingsMapped m) (h : TxTurned m q o t) :
    t.queue.RingsMapped t.mem := by
  cases h with
  | empty | putBack => exact hrings
  | panicked => exact hrings.congr (popped_config q) (.refl m)
  | used _ _ _ _ hlayout => exact hrings.congr ((popped_config q).trans (.bumpUsed _)) hlayout

def Output.replies (o : Output) : ℕ := o.answers.countP (· != .wouldBlock)

omit [TryAccess M] in
theorem writePiece_returns (m : M) (len addr : ℕ) {answers : List Answer} (o : Output)
    (h : 0 < answers.countP (· != .wouldBlock)) :
    ∃ k o', writePiece m len addr answers o = some (k, o') ∧
      answers.countP (· != .wouldBlock) ≤ o'.replies + 1 := by
  induction answers generalizing o with
  | nil => cases h
  | cons a rest ih =>
    cases a with
    | wrote | error => exact ⟨_, _, rfl, by rw [countP_cons_of_pos rfl]; rfl⟩
    | wouldBlock => exact ih _ h

/-- The loop over a chain ends once the output has given an answer for each byte and each
descriptor. -/
theorem sendDescs_returns [LawfulTryAccess M] (m : M) (ds : List DescriptorChain) (written : ℕ)
    {o : Output}
    (h : (ds.map fun d => d.len.toNat + 1).sum ≤ o.replies) :
    ∃ res, sendDescs m ds written o = some res := by
  induction ds generalizing written o with
  | nil => exact ⟨_, rfl⟩
  | cons d ds ih =>
    rw [map_cons, sum_cons] at h
    have hret : ∃ k o', writeDescToOutput m d o = some (k, o') ∧
        o.replies ≤ o'.replies + d.len.toNat + 1 :=
      tryAccess_returns (μ := Output.replies)
        (fun o len cur ho => writePiece_returns m len cur o ho) (by omega)
    obtain ⟨k, o', hd, hle⟩ := hret
    rw [sendDescs, hd]
    cases k with
    | none => exact ih written (by omega)
    | some n =>
      simp only
      split_ifs
      · exact ⟨_, rfl⟩
      · exact ih (written + n) (by omega)
      · exact ⟨_, rfl⟩

theorem processTx_returns [LawfulTryAccess M] (m : M) (q : Queue) :
    ∃ n, ∀ o : Output, n ≤ o.replies → ∃ t, processTx m q o = some t := by
  rcases hpop : q.pop m with _ | ⟨_ | head, q'⟩
  · exact ⟨0, fun o _ => ⟨_, by unfold processTx; rw [hpop]⟩⟩
  · exact ⟨0, fun o _ => ⟨_, by unfold processTx; rw [hpop]⟩⟩
  · refine ⟨((head.intoIter.readable m).map fun d => d.len.toNat + 1).sum, fun o ho => ?_⟩
    obtain ⟨⟨res, o'⟩, hsend⟩ := sendDescs_returns m (head.intoIter.readable m) 0 ho
    unfold processTx
    simp only [hpop, hsend]
    cases res with
    | none => exact ⟨_, rfl⟩
    | some w =>
      simp only
      split_ifs
      · exact ⟨_, rfl⟩
      · split <;> exact ⟨_, rfl⟩

end Turns

end Shelter.Console
