import Shelter.Lib.Bytes

/-!
# Writing frames to passt

A frame goes to the socket of passt behind a header of four bytes, its length. The socket may take
only a part of what it is offered and then be full; the backend counts what it has taken of the
frame, and the rest is sent later from the same buffer. One turn of the loop that sends is one call
of `send`, whose answer is the choice of the socket.
-/

open Bytes

namespace Shelter.Net

def passtHeaderLen : ℕ := 4

inductive WriteError
  /-- nothing was written, the frame can be dropped or sent again -/
  | nothingWritten
  /-- a part was written, `try_finish_write` has to write the rest -/
  | partialWrite
  /-- passt does not seem to be running -/
  | processNotRunning
  /-- some other error of the socket -/
  | internal
  deriving DecidableEq, Repr

/-- What the socket answers to `send`. -/
inductive SendAnswer
  | ok (size : ℕ)
  | eagain
  | epipe
  | other
  deriving DecidableEq, Repr

def SendAnswer.Fine (a : SendAnswer) : Prop := a ≠ .epipe ∧ a ≠ .other
  deriving Decidable

/-- The header of a frame of `n` bytes, in big endian. -/
def frameHeader (n : ℕ) : List Byte := (leBytes passtHeaderLen n).reverse

@[simp] theorem length_frameHeader (n : ℕ) : (frameHeader n).length = 4 := by
  rw [frameHeader, List.length_reverse, length_leBytes, passtHeaderLen]

structure Passt where
  /-- 0 if the last write is complete, otherwise the length that was written -/
  lastPartialWriteLength : ℕ
  deriving DecidableEq, Repr

namespace Passt

variable (p : Passt)

def hasUnfinishedWrite : Bool := p.lastPartialWriteLength != 0

/-- `write_frame` up to its loop: the buffer with the header in it; `none` is a failed check. -/
def writeFrame (hdrLen : ℕ) (buf : List Byte) : Option (List Byte) :=
  if p.hasUnfinishedWrite then none
  else if hdrLen < passtHeaderLen then none
  else if buf.length ≤ hdrLen then none
  else some (buf.take (hdrLen - passtHeaderLen) ++ frameHeader (buf.length - hdrLen) ++
    buf.drop hdrLen)

/-- The part of the buffer that the loop sends: all of a new frame, the rest of one begun. -/
def unsent (hdrLen : ℕ) (buf : List Byte) : List Byte :=
  buf.drop (hdrLen - passtHeaderLen + p.lastPartialWriteLength)

/-- The check of the slice in `try_finish_write`. -/
def InRange (hdrLen : ℕ) (buf : List Byte) : Prop :=
  hdrLen - passtHeaderLen + p.lastPartialWriteLength ≤ buf.length
  deriving Decidable

/-- One call of `send` in the loop, with what the socket has taken. The loop goes on with a new
count, or it ends with an error. -/
def sendTurn (buf : List Byte) (bytesSend : ℕ) :
    SendAnswer → Passt × List Byte × Except WriteError ℕ
  | .ok size =>
    let taken := (buf.drop bytesSend).take size
    (p, taken, .ok (bytesSend + taken.length))
  | .eagain =>
    if bytesSend = 0 then (p, [], .error .nothingWritten)
    else
      ({ p with lastPartialWriteLength := p.lastPartialWriteLength + bytesSend }, [],
        .error .partialWrite)
  | .epipe => (p, [], .error .processNotRunning)
  | .other => (p, [], .error .internal)

/-- The frame is in the buffer behind the bytes that the header of passt does not need. -/
theorem writeFrame_some {p : Passt} {hdrLen : ℕ} {buf out : List Byte}
    (h : p.writeFrame hdrLen buf = some out) :
    p.lastPartialWriteLength = 0 ∧ hdrLen < buf.length ∧ out.length = buf.length ∧
      out.drop (hdrLen - passtHeaderLen) =
        frameHeader (buf.length - hdrLen) ++ buf.drop hdrLen := by
  unfold writeFrame hasUnfinishedWrite at h
  split_ifs at h with h₁ h₂ h₃
  cases h
  unfold passtHeaderLen at *
  have htake : (buf.take (hdrLen - 4)).length = hdrLen - 4 := by
    rw [List.length_take]
    omega
  refine ⟨by simpa using h₁, by omega, ?_, ?_⟩
  · simp only [List.length_append, htake, length_frameHeader, List.length_drop]
    omega
  · rw [List.append_assoc, List.drop_left' htake]

theorem writeFrame_isSome {p : Passt} {hdrLen : ℕ} (hp : p.lastPartialWriteLength = 0)
    (hhdr : passtHeaderLen ≤ hdrLen) (buf : List Byte) :
    (p.writeFrame hdrLen buf).isSome = true ↔ hdrLen < buf.length := by
  unfold writeFrame hasUnfinishedWrite
  rw [hp]
  simp only [bne_self_eq_false, Bool.false_eq_true, if_false, if_neg (Nat.not_lt.mpr hhdr)]
  by_cases h : buf.length ≤ hdrLen
  · simp [h]
  · simp [h, Nat.lt_of_not_le h]

end Passt

end Shelter.Net
