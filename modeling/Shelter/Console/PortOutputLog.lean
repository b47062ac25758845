import Mathlib.Data.List.Induction
import Shelter.Lib.Bytes

/-!
# The port for the log

`PortOutputLog` passes on what the kernel and `init` print, line by line. A line that has no end
yet stays in the buffer until the next write, or is logged as it is if it has become too long.
-/

open Bytes

namespace Shelter.Console

open List

def newline : Byte := 10

/-- A call of the logger, with the bytes that `from_utf8_lossy` makes its text of. -/
inductive LogMessage
  | line (bytes : List Byte)
  | missingNewline (bytes : List Byte)
  deriving DecidableEq, Repr

def LogMessage.bytes : LogMessage → List Byte
  | line bytes | missingNewline bytes => bytes

/-- The part of the output that the message stands for. -/
def LogMessage.printed : LogMessage → List Byte
  | line bytes => bytes ++ [newline]
  | missingNewline bytes => bytes

/-- The port, with the messages that it has logged. -/
structure PortOutputLog where
  buf : List Byte
  logged : List LogMessage
  deriving DecidableEq, Repr

namespace PortOutputLog

def forceFlushTreshold : ℕ := 512

def new : PortOutputLog := ⟨[], []⟩

def forceFlush (p : PortOutputLog) : PortOutputLog := ⟨[], p.logged ++ [.missingNewline p.buf]⟩

/-- A turn of the loop over the buffer, with `start` and the lines so far. -/
def scan (buf : List Byte) (acc : ℕ × List LogMessage) (next : Byte × ℕ) : ℕ × List LogMessage :=
  if next.1 = newline then (next.2 + 1, acc.2 ++ [.line (buf.extract acc.1 next.2)]) else acc

/-- The write into the vector of the buffer takes all bytes. -/
def writeVolatile (p : PortOutputLog) (chunk : List Byte) : PortOutputLog × ℕ :=
  let buf := p.buf ++ chunk
  let (start, lines) := buf.zipIdx.foldl (scan buf) (0, [])
  let p : PortOutputLog := ⟨buf.drop start, p.logged ++ lines⟩
  (if forceFlushTreshold < p.buf.length then p.forceFlush else p, chunk.length)

/-- The messages and the buffer are the output, cut at newlines. -/
structure Holds (p : PortOutputLog) (output : List Byte) : Prop where
  conserved : p.logged.flatMap LogMessage.printed ++ p.buf = output
  logged : ∀ m ∈ p.logged, newline ∉ m.bytes
  buf : newline ∉ p.buf

variable {p q : PortOutputLog} {output chunk done : List Byte} {acc : ℕ × List LogMessage}

/-- What was in the buffer is cut together with what comes next. -/
theorem Holds.append (h : p.Holds output) (hq : q.Holds (p.buf ++ chunk)) :
    Holds ⟨q.buf, p.logged ++ q.logged⟩ (output ++ chunk) := by
  refine ⟨?_, ?_, hq.buf⟩
  · rw [flatMap_append, append_assoc, hq.conserved, ← append_assoc, h.conserved]
  · rw [forall_mem_append]
    exact ⟨h.logged, hq.logged⟩

theorem Holds.forceFlush (h : p.Holds output) : p.forceFlush.Holds output := by
  have hq : Holds ⟨[], [.missingNewline p.buf]⟩ (p.buf ++ []) :=
    ⟨by simp [LogMessage.printed], forall_mem_singleton.mpr h.buf, not_mem_nil⟩
  simpa [PortOutputLog.forceFlush] using h.append hq

/-- The invariant of the loop: with what it read after `start` for a buffer, the port holds what it
read. -/
def Scanned (done : List Byte) (acc : ℕ × List LogMessage) : Prop :=
  acc.1 ≤ done.length ∧ Holds ⟨done.drop acc.1, acc.2⟩ done

theorem Scanned.step {buf : List Byte} (h : Scanned done acc) (hbuf : buf.take done.length = done)
    (c : Byte) : Scanned (done ++ [c]) (scan buf acc (c, done.length)) := by
  obtain ⟨hstart, hholds⟩ := h
  unfold scan
  split_ifs with hc
  · have hline : buf.extract acc.1 done.length = done.drop acc.1 := by
      rw [extract_eq_drop_take', hbuf]
    have hq : Holds ⟨[], [.line (done.drop acc.1)]⟩ (done.drop acc.1 ++ [c]) :=
      ⟨by simp [LogMessage.printed, ← hc], forall_mem_singleton.mpr hholds.buf, not_mem_nil⟩
    refine ⟨by simp, ?_⟩
    simpa [hline] using hholds.append hq
  · have hq : Holds ⟨done.drop acc.1 ++ [c], []⟩ (done.drop acc.1 ++ [c]) :=
      ⟨rfl, by simp, by simpa [hholds.buf] using Ne.symm hc⟩
    refine ⟨by simp only [length_append]; omega, ?_⟩
    simpa [drop_append_of_le_length hstart] using hholds.append hq

theorem Scanned.foldl (rest : List Byte) (h : Scanned done acc) :
    Scanned (done ++ rest) ((rest.zipIdx done.length).foldl (scan (done ++ rest)) acc) := by
  induction rest generalizing done acc with
  | nil => simpa using h
  | cons c rest ih =>
    have hstep : Scanned _ (scan (done ++ c :: rest) acc (c, done.length)) := h.step (by simp) c
    simpa using ih hstep

theorem writeVolatile_holds (h : p.Holds output) (chunk : List Byte) :
    (p.writeVolatile chunk).1.Holds (output ++ chunk) ∧
      (p.writeVolatile chunk).1.buf.length ≤ forceFlushTreshold := by
  have hnil : Scanned [] (0, []) := ⟨le_rfl, rfl, by simp, not_mem_nil⟩
  have hnext := h.append (hnil.foldl (p.buf ++ chunk)).2
  unfold writeVolatile
  dsimp only
  split_ifs with hlen
  · exact ⟨hnext.forceFlush, Nat.zero_le _⟩
  · exact ⟨hnext, not_lt.mp hlen⟩

/-- However the output is cut into writes, the messages and the buffer give it back. -/
theorem output_conserved (chunks : List (List Byte)) :
    let p := chunks.foldl (fun p chunk => (p.writeVolatile chunk).1) new
    p.logged.flatMap LogMessage.printed ++ p.buf = chunks.flatten ∧
      (∀ m ∈ p.logged, newline ∉ m.bytes) ∧ newline ∉ p.buf ∧ p.buf.length ≤ 512 := by
  intro p
  have h : p.Holds chunks.flatten ∧ p.buf.length ≤ forceFlushTreshold := by
    induction chunks using reverseRecOn with
    | nil => exact ⟨⟨rfl, by simp [p, new], not_mem_nil⟩, Nat.zero_le _⟩
    | append_singleton chunks chunk ih =>
      have hnext := writeVolatile_holds ih.1 chunk
      simpa [p] using hnext
  exact ⟨h.1.conserved, h.1.logged, h.1.buf, h.2⟩

end PortOutputLog

end Shelter.Console
