import Shelter.Lib.Run
import Shelter.Net.Passt

/-!
# Reading frames from passt

`read_frame` reads a header and then as many bytes as it says, each with `read_loop`: a `recv` that
does not wait, and others that do until the slice is full. Once the header is read its length is
kept, and a call that finds nothing more leaves the frame to the next call.

A step is one `recv`; what the socket answers is its choice. At the end of the stream `recv` returns
no bytes and no error, and the loop goes on.
-/

open Bytes Run

namespace Shelter.Net

open List Nat

/-- What the socket answers to `recv`: at most so many bytes of what is there, or an error. -/
inductive RecvAnswer
  | ok (size : ℕ)
  | eagain
  | other
  deriving DecidableEq, Repr

/-- Where a call is: in `read_loop` for the header or the frame, before or after the first `recv`,
with the bytes it has got. -/
inductive ReadPc
  | idle
  | reading (body first : Bool) (got : List Byte)
  | panicked
  deriving DecidableEq, Repr

structure PasstReader where
  /-- what the peer has sent and no `recv` has returned -/
  pipe : List Byte
  /-- 0 when a frame length has not been read -/
  expectingFrameLength : ℕ
  pc : ReadPc
  /-- the frames returned so far -/
  frames : List (List Byte)
  deriving DecidableEq, Repr

inductive ReadStep
  | call
  | recv (answer : RecvAnswer)
  deriving DecidableEq, Repr

def encodeFrame (frame : List Byte) : List Byte := frameHeader frame.length ++ frame

namespace PasstReader

variable (pipe : List Byte)

def new : PasstReader := ⟨pipe, 0, .idle, []⟩

/-- The length of the slice that `read_loop` fills. -/
def need (s : PasstReader) (body : Bool) : ℕ :=
  if body then s.expectingFrameLength else passtHeaderLen

/-- Take the slice for the frame, which panics if the length is that of no buffer. -/
def readBody (bufLen : ℕ) (s : PasstReader) : PasstReader :=
  { s with pc := if s.expectingFrameLength ≤ bufLen then .reading true true [] else .panicked }

def received (bufLen : ℕ) (s : PasstReader) (body : Bool) (got : List Byte) : PasstReader :=
  if got.length < s.need body then { s with pc := .reading body false got }
  else if body then { s with pc := .idle, expectingFrameLength := 0, frames := s.frames ++ [got] }
  else readBody bufLen { s with expectingFrameLength := leNat got.reverse }

def step (bufLen : ℕ) (s : PasstReader) : ReadStep → Option PasstReader
  | .call =>
    match s.pc with
    | .idle => some (if s.expectingFrameLength = 0 then { s with pc := .reading false true [] }
        else s.readBody bufLen)
    | _ => none
  | .recv answer =>
    match s.pc with
    | .reading body first got =>
      match answer with
      | .ok size =>
        let k := min size (s.need body - got.length)
        some ({ s with pipe := s.pipe.drop k }.received bufLen body (got ++ s.pipe.take k))
      | .eagain => some (if first then { s with pc := .idle } else s)
      | .other => some { s with pc := .idle }
    | _ => none

/-! ## What is read -/

/-- The stream is what is left of the frames: `got` is a part of the next header, or, if its length
is known, of the next frame. -/
def Awaits (s : PasstReader) (got : List Byte) (rest : List (List Byte)) : Prop :=
  if s.expectingFrameLength = 0 then got ++ s.pipe = rest.flatMap encodeFrame
  else ∃ f fs, rest = f :: fs ∧ s.expectingFrameLength = f.length ∧
    got ++ s.pipe = f ++ fs.flatMap encodeFrame

/-- The frames returned and those in the stream are the frames sent. -/
def Carries (frames : List (List Byte)) (s : PasstReader) : Prop :=
  ∃ rest, frames = s.frames ++ rest ∧
    match s.pc with
    | .idle => s.Awaits [] rest
    | .reading body first got => s.Awaits got rest ∧ got.length < s.need body ∧
        (body = true ↔ s.expectingFrameLength ≠ 0) ∧ (first = true → got = [])
    | .panicked => False

variable {s s' : PasstReader} {bufLen : ℕ} {frames rest : List (List Byte)} {got : List Byte}

theorem carries_readBody (hf : frames = s.frames ++ rest) (h : s.Awaits [] rest)
    (hexp : s.expectingFrameLength ≠ 0) (hle : s.expectingFrameLength ≤ bufLen) :
    Carries frames (s.readBody bufLen) := by
  refine ⟨rest, hf, ?_⟩
  rw [readBody, if_pos hle]
  exact ⟨h, pos_of_ne_zero hexp, by simp [hexp], fun _ => rfl⟩

theorem leNat_frameHeader {n : ℕ} (h : n < 2 ^ 32) : leNat (frameHeader n).reverse = n := by
  rw [frameHeader, reverse_reverse, leNat_leBytes, passtHeaderLen]
  exact mod_eq_of_lt (by omega)

theorem carries_received (hsizes : ∀ f ∈ frames, 0 < f.length ∧ f.length ≤ bufLen)
    (hbuf : bufLen < 2 ^ 32) {body : Bool} (hf : frames = s.frames ++ rest)
    (h : s.Awaits got rest) (hle : got.length ≤ s.need body)
    (hbody : body = true ↔ s.expectingFrameLength ≠ 0) :
    Carries frames (s.received bufLen body got) := by
  unfold received
  split_ifs with hlt hb
  · exact ⟨rest, hf, h, hlt, hbody, nofun⟩
  · -- the frame is complete
    rw [Awaits, if_neg (hbody.mp hb)] at h
    obtain ⟨f, fs, rfl, hexp, hgot⟩ := h
    rw [need, if_pos hb] at hlt hle
    obtain ⟨rfl, hpipe⟩ := append_inj hgot (by omega)
    exact ⟨fs, by simp [hf], hpipe⟩
  · -- the header is complete, so there is a frame
    have hexp : s.expectingFrameLength = 0 := by
      by_contra hne
      exact hb (hbody.mpr hne)
    rw [Awaits, if_pos hexp] at h
    rw [need, if_neg hb, passtHeaderLen] at hlt hle
    cases rest with
    | nil =>
      have := congrArg List.length h
      simp only [flatMap_nil, length_append, length_nil] at this
      omega
    | cons f fs =>
      obtain ⟨hpos, hfits⟩ := hsizes f (by simp [hf])
      rw [flatMap_cons, encodeFrame, append_assoc] at h
      obtain ⟨rfl, hpipe⟩ := append_inj h (by rw [length_frameHeader]; omega)
      have hlen : leNat (frameHeader f.length).reverse = f.length := leNat_frameHeader (by omega)
      rw [hlen]
      refine carries_readBody hf ?_ hpos.ne' hfits
      rw [Awaits, if_neg hpos.ne']
      exact ⟨f, fs, rfl, rfl, hpipe⟩

theorem carries_step (hsizes : ∀ f ∈ frames, 0 < f.length ∧ f.length ≤ bufLen)
    (hbuf : bufLen < 2 ^ 32) {e : ReadStep} (he : e ≠ .recv .other) (h : Carries frames s)
    (hstep : s.step bufLen e = some s') : Carries frames s' := by
  obtain ⟨rest, hf, h⟩ := h
  unfold step at hstep
  rcases e with _ | (size | _ | _) <;> rcases hpc : s.pc with _ | ⟨body, first, got⟩ | _ <;>
    rw [hpc] at h hstep <;> cases hstep
  · split_ifs with hexp
    · exact ⟨rest, hf, h, zero_lt_succ 3, by simp [hexp], fun _ => rfl⟩
    · have hawaits := h
      rw [Awaits, if_neg hexp] at hawaits
      obtain ⟨f, fs, rfl, hlen, -⟩ := hawaits
      exact carries_readBody hf h hexp (hlen ▸ (hsizes f (by simp [hf])).2)
  · obtain ⟨hawaits, hlt, hbody, -⟩ := h
    refine carries_received hsizes hbuf hf ?_ ?_ hbody
    · simpa [Awaits, append_assoc] using hawaits
    · show (got ++ s.pipe.take (min size (s.need body - got.length))).length ≤ s.need body
      rw [length_append, length_take]
      omega
  · obtain ⟨hawaits, hlt, hbody, hfirst⟩ := h
    split_ifs with hf'
    · exact ⟨rest, hf, hfirst hf' ▸ hawaits⟩
    · refine ⟨rest, hf, ?_⟩
      rw [hpc]
      exact ⟨hawaits, hlt, hbody, hfirst⟩
  · exact absurd rfl he

theorem Awaits.rest_eq_nil (h : s.Awaits got rest) (hpipe : s.pipe = [])
    (hlt : got.length < if s.expectingFrameLength = 0 then 4 else s.expectingFrameLength) :
    rest = [] := by
  rw [Awaits, hpipe, append_nil] at h
  split_ifs at h hlt
  · cases rest with
    | nil => rfl
    | cons f fs =>
      rw [h, flatMap_cons, encodeFrame, length_append, length_append,
        length_frameHeader] at hlt
      omega
  · obtain ⟨f, fs, -, hlen, hgot⟩ := h
    rw [hgot, length_append, hlen] at hlt
    omega

/-- However the socket cuts the encoding of frames, the calls return them in order: a part of them,
and all when the stream is used up. What `write_frame` sends is such an encoding. -/
theorem frames_read (hsizes : ∀ f ∈ frames, 0 < f.length ∧ f.length ≤ bufLen)
    (hbuf : bufLen < 2 ^ 32) {es : List ReadStep}
    (hcuts : Along (step bufLen) (fun _ e => e ≠ .recv .other) (new (frames.flatMap encodeFrame))
      es)
    (hrun : run (step bufLen) (new (frames.flatMap encodeFrame)) es = some s) :
    s.pc ≠ .panicked ∧ (∃ rest, frames = s.frames ++ rest ∧ (s.pipe = [] → rest = [])) ∧
      ∀ (p : Passt) (hdrLen : ℕ) (buf out : List Byte), p.writeFrame hdrLen buf = some out →
        out.drop (hdrLen - passtHeaderLen) = encodeFrame (buf.drop hdrLen) := by
  obtain ⟨rest, hf, h⟩ : Carries frames s :=
    along_invariant (fun _ _ _ h he => carries_step hsizes hbuf he h) ⟨frames, rfl, rfl⟩ hcuts hrun
  refine ⟨fun hpc => by rw [hpc] at h; exact h, ⟨rest, hf, fun hpipe => ?_⟩, ?_⟩
  · rcases hpc : s.pc with _ | ⟨body, first, got⟩ | _ <;> rw [hpc] at h
    · refine h.rest_eq_nil hpipe ?_
      split_ifs with h0
      exacts [zero_lt_succ 3, pos_of_ne_zero h0]
    · obtain ⟨hawaits, hlt, hbody, -⟩ := h
      refine hawaits.rest_eq_nil hpipe ?_
      rw [need] at hlt
      split_ifs at hlt ⊢ <;> simp_all [passtHeaderLen]
    · exact h.elim
  · intro p hdrLen buf out hout
    rw [(Passt.writeFrame_some hout).2.2.2, encodeFrame, length_drop]

/-- Two frames in pieces of three bytes, with an answer that nothing is there in between. -/
def threeByThree : List ReadStep :=
  [.call, .recv (.ok 3), .recv (.ok 3), .recv .eagain, .call, .recv (.ok 3), .call, .recv (.ok 3),
    .recv (.ok 3), .recv (.ok 3)]

theorem frames_read_two : ∃ s,
    run (step 16) (new ([[1, 2], [3]].flatMap encodeFrame)) threeByThree = some s ∧
      s.frames = [[1, 2], [3]] := by
  obtain ⟨s, hs⟩ : ∃ s, run (step 16) (new ([[1, 2], [3]].flatMap encodeFrame)) threeByThree =
    some s := ⟨_, rfl⟩
  obtain ⟨-, ⟨rest, hf, hrest⟩, -⟩ :=
    frames_read (show ∀ f ∈ [[1, 2], [3]], 0 < f.length ∧ f.length ≤ 16 by decide) (by decide)
      (by decide) hs
  have hpipe : s.pipe = [] := by cases hs; rfl
  rw [hrest hpipe, append_nil] at hf
  exact ⟨s, hs, hf.symm⟩

/-! ## The end of the stream -/

/-- The call returns after at most `n` more `recv`s, in whatever pieces the socket hands out what is
left. At the end of the stream the pieces are empty. -/
def ReturnsIn (bufLen : ℕ) : ℕ → PasstReader → Prop
  | 0, s => s.pc = .idle
  | n + 1, s => s.pc = .idle ∨
      ∀ size > 0, ∃ s', s.step bufLen (.recv (.ok size)) = some s' ∧ ReturnsIn bufLen n s'

/-- What is left holds the rest of the header, if that is being read, and the rest of the frame,
and the frame fits the buffer. -/
def Complete (bufLen : ℕ) (s : PasstReader) : Prop :=
  match s.pc with
  | .idle => True
  | .reading true _ got => s.expectingFrameLength ≤ (got ++ s.pipe).length
  | .reading false _ got => passtHeaderLen ≤ (got ++ s.pipe).length ∧
      leNat ((got ++ s.pipe).take passtHeaderLen).reverse ≤ bufLen ∧
      passtHeaderLen + leNat ((got ++ s.pipe).take passtHeaderLen).reverse ≤
        (got ++ s.pipe).length
  | .panicked => False

/-- No more was received than there is room for. -/
def Fits (s : PasstReader) : Prop :=
  ∀ body first got, s.pc = .reading body first got → got.length ≤ s.need body

/-- The bytes left, and one for a header. -/
def left (s : PasstReader) : ℕ :=
  match s.pc with
  | .reading false _ _ => s.pipe.length + 1
  | _ => s.pipe.length

theorem recv_ok {size : ℕ} (h : s.Fits) (hpos : 0 < size)
    (hstep : s.step bufLen (.recv (.ok size)) = some s') :
    s'.Fits ∧ (s'.Complete bufLen ↔ s.Complete bufLen) ∧
      (s.Complete bufLen → s'.pc = .idle ∨ s'.left < s.left) := by
  rcases hpc : s.pc with _ | ⟨body, first, got⟩ | _ <;> rw [step, hpc] at hstep <;> cases hstep
  have hle := h _ _ _ hpc
  generalize hk : min size (s.need body - got.length) = k
  have hdata : got ++ s.pipe.take k ++ s.pipe.drop k = got ++ s.pipe := by simp
  have hlen : (got ++ s.pipe.take k).length = got.length + min k s.pipe.length := by simp
  have hneed : ∀ pipe pc, need { s with pipe, pc } body = s.need body := fun _ _ => rfl
  rw [received, hneed]
  by_cases hlt : (got ++ s.pipe.take k).length < s.need body
  · -- the slice is not full yet
    rw [if_pos hlt]
    refine ⟨by rintro _ _ _ ⟨⟩; exact hlt.le, ?_, fun hc => .inr ?_⟩
    · cases body <;> simp only [Complete, hpc, hdata]
    · unfold Complete at hc
      cases body <;> simp only [hpc, left, length_drop, need, length_append] at * <;>
        grind
  rw [if_neg hlt]
  have hall : (got ++ s.pipe.take k).length = s.need body := by omega
  cases body with
  | true =>
    refine ⟨nofun, iff_of_true trivial ?_, fun _ => .inl rfl⟩
    rw [Complete, hpc]
    show s.expectingFrameLength ≤ (got ++ s.pipe).length
    rw [← hdata, length_append, hall]
    exact Nat.le_add_right ..
  | false =>
    have htake : (got ++ s.pipe).take passtHeaderLen = got ++ s.pipe.take k := by
      rw [← hdata]
      exact take_left' hall
    have htotal : passtHeaderLen + (s.pipe.drop k).length = (got ++ s.pipe).length := by
      rw [← hdata, length_append, hall]
      rfl
    rw [if_neg nofun, readBody]
    by_cases hfits : leNat (got ++ s.pipe.take k).reverse ≤ bufLen
    · rw [if_pos hfits]
      refine ⟨by rintro _ _ _ ⟨⟩; exact zero_le _, ?_, fun _ => .inr ?_⟩
      · simp only [Complete, hpc, htake, nil_append]
        omega
      · simp only [left, hpc, length_drop]
        omega
    · rw [if_neg hfits]
      have hnot : ¬ s.Complete bufLen := by
        simp only [Complete, hpc, htake]
        exact fun hc => hfits hc.2.1
      exact ⟨nofun, iff_of_false id hnot, fun hc => absurd hc hnot⟩

theorem complete_of_returnsIn {n : ℕ} (h : s.Fits) (hn : s.ReturnsIn bufLen n) :
    s.Complete bufLen := by
  have hidle : s.pc = .idle → s.Complete bufLen := fun hpc => by rw [Complete, hpc]; trivial
  induction n generalizing s with
  | zero => exact hidle hn
  | succ n ih =>
    rcases hn with hn | hn
    · exact hidle hn
    · obtain ⟨s', hstep, hn⟩ := hn 1 one_pos
      obtain ⟨hfits, hc, -⟩ := recv_ok h one_pos hstep
      exact hc.mp (ih hfits hn fun hpc => by rw [Complete, hpc]; trivial)

theorem returnsIn_of_complete {n : ℕ} (h : s.Fits) (hc : s.Complete bufLen)
    (hn : s.pc = .idle ∨ s.left < n) : s.ReturnsIn bufLen n := by
  induction n generalizing s with
  | zero => exact hn.resolve_right (not_lt_zero _)
  | succ n ih =>
    rcases hpc : s.pc with _ | ⟨body, first, got⟩ | _
    · exact .inl hpc
    · refine .inr fun size hpos => ?_
      obtain ⟨s', hstep⟩ : ∃ s', s.step bufLen (.recv (.ok size)) = some s' := by
        rw [step, hpc]
        exact ⟨_, rfl⟩
      obtain ⟨hfits, hc', hnext⟩ := recv_ok h hpos hstep
      refine ⟨s', hstep, ih hfits (hc'.mpr hc) ((hnext hc).imp_right fun hlt => ?_)⟩
      have := hn.resolve_left (by rw [hpc]; nofun)
      omega
    · rw [Complete, hpc] at hc
      exact hc.elim

/-- After the peer has closed, a call returns if and only if what is left completes the frame and
the frame fits the buffer. -/
theorem returns_iff_complete (h : s.Fits) : (∃ n, s.ReturnsIn bufLen n) ↔ s.Complete bufLen :=
  ⟨fun ⟨_, hn⟩ => complete_of_returnsIn h hn,
    fun hc => ⟨_, returnsIn_of_complete h hc (.inr (lt_succ_self _))⟩⟩

/-- A call that has two bytes of the header, with the rest of the stream in the pipe. -/
def halfHeader : PasstReader := ⟨pipe, 0, .reading false false [0, 0], []⟩

theorem halfHeader_fits : (halfHeader pipe).Fits := by
  rintro body first got ⟨⟩
  exact le_add_right 2 2

theorem returns_whole_frame : ∃ n, (halfHeader [0, 2, 7, 8]).ReturnsIn 16 n :=
  (returns_iff_complete (halfHeader_fits _)).mpr (show _ ∧ _ ∧ _ by decide)

/-- The peer closes before the header is complete, and it sends a length that is too large. -/
theorem never_returns : (∀ n, ¬ (halfHeader []).ReturnsIn 16 n) ∧
    run (step 16) (halfHeader [0, 17]) [.recv (.ok 2)] = some ⟨[], 17, .panicked, []⟩ :=
  ⟨fun _ hn => absurd (complete_of_returnsIn (halfHeader_fits _) hn).1 (by decide), by decide⟩

end PasstReader

end Shelter.Net
