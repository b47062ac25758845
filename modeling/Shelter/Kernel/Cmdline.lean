import Mathlib.Data.List.Infix
import Mathlib.Tactic.Ring
import Shelter.Lib.Run

/-!
# The kernel command line

A line that is built from pieces, with a space between them, below a capacity that counts the
terminator. Texts are lists of characters; `len` is their length in bytes.
-/

namespace Shelter.Kernel

open Run List

abbrev Str := List Char

def len (s : Str) : ℕ := (s.map Char.utf8Size).sum

inductive CmdlineError
  | invalidAscii
  | hasSpace
  | hasEquals
  | tooLarge
  deriving DecidableEq, Repr

def validChar (c : Char) : Bool := ' ' ≤ c && c ≤ '~'

def validStr (s : Str) : Except CmdlineError Unit :=
  if s.all validChar then .ok () else .error .invalidAscii

def validElement (s : Str) : Except CmdlineError Unit :=
  if !s.all validChar then .error .invalidAscii
  else if ' ' ∈ s then .error .hasSpace
  else if '=' ∈ s then .error .hasEquals
  else .ok ()

structure Cmdline where
  line : Str
  capacity : ℕ
  deriving DecidableEq, Repr

namespace Cmdline

/-- `none` is a failed assertion, here and in `end_push`. -/
def new (capacity : ℕ) : Option Cmdline := if capacity = 0 then none else some ⟨[], capacity⟩

def hasCapacity (c : Cmdline) (more : ℕ) : Except CmdlineError Unit :=
  let needsSpace := if c.line.isEmpty then 0 else 1
  if len c.line + more + needsSpace < c.capacity then .ok () else .error .tooLarge

def startPush (c : Cmdline) : Cmdline :=
  if c.line.isEmpty then c else { c with line := c.line ++ [' '] }

def endPush (c : Cmdline) : Option Cmdline := if len c.line < c.capacity then some c else none

/-- What `insert` and `insert_str` do with a piece of `more` bytes. -/
def push (c : Cmdline) (valid : Except CmdlineError Unit) (more : ℕ) (piece : Str) :
    Option (Except CmdlineError Unit × Cmdline) :=
  match do valid; c.hasCapacity more with
  | .error e => some (.error e, c)
  | .ok _ => (endPush { c.startPush with line := c.startPush.line ++ piece }).map (.ok (), ·)

def insert (c : Cmdline) (key val : Str) : Option (Except CmdlineError Unit × Cmdline) :=
  c.push (do validElement key; validElement val) (len key + len val + 1) (key ++ '=' :: val)

def insertStr (c : Cmdline) (slug : Str) : Option (Except CmdlineError Unit × Cmdline) :=
  c.push (validStr slug) (len slug) slug

end Cmdline

inductive CmdlineCall
  | insert (key val : Str)
  | insertStr (slug : Str)
  deriving DecidableEq, Repr

namespace CmdlineCall

def piece : CmdlineCall → Str
  | insert key val => key ++ '=' :: val
  | insertStr slug => slug

/-- The characters that a call may have. -/
def Allowed : CmdlineCall → Prop
  | insert key val => ∀ c ∈ key ++ val, validChar c = true ∧ c ≠ ' ' ∧ c ≠ '='
  | insertStr slug => ∀ c ∈ slug, validChar c = true

end CmdlineCall

namespace Cmdline

def call (c : Cmdline) : CmdlineCall → Option (Except CmdlineError Unit × Cmdline)
  | .insert key val => c.insert key val
  | .insertStr slug => c.insertStr slug

/-- A call, with a record of the pieces that were accepted. -/
def step (s : Cmdline × List Str) (call : CmdlineCall) : Option (Cmdline × List Str) :=
  (s.1.call call).map fun
    | (.ok _, c) => (c, s.2 ++ [call.piece])
    | (.error _, c) => (c, s.2)

/-- The pieces with single spaces between them, from the first that is not empty. -/
def joined (pieces : List Str) : Str := [' '].intercalate (pieces.dropWhile List.isEmpty)

/-! ## What a call does -/

theorem len_append (s t : Str) : len (s ++ t) = len s + len t := by
  simp [len]

theorem len_cons (c : Char) (s : Str) : len (c :: s) = c.utf8Size + len s := by
  simp [len]

theorem validElement_ok {s : Str} :
    validElement s = .ok () ↔ ∀ c ∈ s, validChar c = true ∧ c ≠ ' ' ∧ c ≠ '=' := by
  unfold validElement
  grind

theorem validStr_ok {s : Str} : validStr s = .ok () ↔ ∀ c ∈ s, validChar c = true := by
  unfold validStr
  grind

def next (line piece : Str) : Str := if line = [] then piece else line ++ ' ' :: piece

theorem push_spec (c : Cmdline) {valid : Except CmdlineError Unit} {more : ℕ} {piece : Str}
    (hmore : more = len piece) :
    (valid = .ok () ∧ len (next c.line piece) < c.capacity ∧
        c.push valid more piece = some (.ok (), { c with line := next c.line piece })) ∨
      (¬ (valid = .ok () ∧ len (next c.line piece) < c.capacity) ∧
        ∃ e, c.push valid more piece = some (.error e, c)) := by
  subst hmore
  have hline : c.startPush.line ++ piece = next c.line piece ∧ c.startPush.capacity = c.capacity ∧
      len c.line + len piece + (if c.line.isEmpty then 0 else 1) = len (next c.line piece) := by
    unfold startPush next
    by_cases hnil : c.line = []
    · simp [hnil, len]
    · have hspace : len (' ' :: piece) = 1 + len piece := len_cons ' ' piece
      simp [hnil, len_append, hspace]
      omega
  obtain ⟨hline, hcap, hlen⟩ := hline
  unfold push hasCapacity
  dsimp only
  rw [hlen, hline]
  cases valid with
  | error e => exact .inr ⟨nofun, e, rfl⟩
  | ok =>
    by_cases hfits : len (next c.line piece) < c.capacity
    · refine .inl ⟨rfl, hfits, ?_⟩
      simp [if_pos hfits, bind, Except.bind, endPush, hcap]
    · refine .inr ⟨fun h => hfits h.2, .tooLarge, ?_⟩
      simp [if_neg hfits, bind, Except.bind]

theorem call_spec (c : Cmdline) (call : CmdlineCall) :
    (call.Allowed ∧ len (next c.line call.piece) < c.capacity ∧
        c.call call = some (.ok (), { c with line := next c.line call.piece })) ∨
      (¬ (call.Allowed ∧ len (next c.line call.piece) < c.capacity) ∧
        ∃ e, c.call call = some (.error e, c)) := by
  cases call with
  | insert key val =>
    have hvalid : (do validElement key; validElement val : Except CmdlineError Unit) = .ok () ↔
        (CmdlineCall.insert key val).Allowed := by
      show _ ↔ ∀ c ∈ key ++ val, _
      rw [forall_mem_append, ← validElement_ok, ← validElement_ok]
      cases validElement key <;> simp [bind, Except.bind]
    rw [← hvalid]
    refine c.push_spec ((len_append key _).trans ?_).symm
    have hequals : len ('=' :: val) = 1 + len val := len_cons '=' val
    omega
  | insertStr slug =>
    show (CmdlineCall.Allowed _ ∧ _) ∨ _
    rw [show (CmdlineCall.insertStr slug).Allowed ↔ validStr slug = .ok () from validStr_ok.symm]
    exact c.push_spec rfl

theorem intercalate_concat {l : List Str} (h : l ≠ []) (p : Str) :
    [' '].intercalate (l ++ [p]) = [' '].intercalate l ++ ' ' :: p := by
  induction l with
  | nil => exact absurd rfl h
  | cons a l ih =>
    cases l with
    | nil => simp [intercalate]
    | cons b l =>
      have hl := ih (cons_ne_nil _ _)
      simp_all [intercalate_cons_cons]

theorem joined_append (ps : List Str) (p : Str) : joined (ps ++ [p]) = next (joined ps) p := by
  unfold joined next
  rw [dropWhile_append]
  cases hdrop : ps.dropWhile List.isEmpty with
  | nil =>
    cases p with
    | nil | cons => simp [intercalate]
  | cons a l =>
    have ha : a ≠ [] := by
      have hhead := head?_dropWhile_not List.isEmpty ps
      rw [hdrop] at hhead
      simpa using hhead
    have hne : [' '].intercalate (a :: l) ≠ [] := by
      cases l <;> simp [intercalate, ha]
    rw [if_neg (by simp), if_neg hne]
    exact intercalate_concat (cons_ne_nil _ _) p

theorem valid_next {line piece : Str} (hline : ∀ c ∈ line, validChar c = true)
    (hpiece : ∀ c ∈ piece, validChar c = true) : ∀ c ∈ next line piece, validChar c = true := by
  unfold next
  have hspace : validChar ' ' = true := by decide
  grind

theorem valid_piece {call : CmdlineCall} (h : call.Allowed) :
    ∀ c ∈ call.piece, validChar c = true := by
  cases call with
  | insert key val =>
    intro c hc
    rcases mem_append.mp hc with hc | hc
    · exact (h c (mem_append_left _ hc)).1
    rcases mem_cons.mp hc with rfl | hc
    · decide
    · exact (h c (mem_append_right _ hc)).1
  | insertStr slug => exact h

/-- The line is what the accepted pieces say. -/
structure Built (capacity : ℕ) (s : Cmdline × List Str) : Prop where
  valid : ∀ c ∈ s.1.line, validChar c = true
  short : len s.1.line < capacity
  line : s.1.line = joined s.2
  cap : s.1.capacity = capacity

theorem Built.step {capacity : ℕ} {s : Cmdline × List Str} (h : Built capacity s)
    (call : CmdlineCall) : ∃ s', step s call = some s' ∧ Built capacity s' := by
  unfold Cmdline.step
  obtain ⟨hallowed, hfits, hcall⟩ | ⟨-, e, hcall⟩ := s.1.call_spec call
  · rw [hcall]
    refine ⟨_, rfl, valid_next h.valid (valid_piece hallowed), h.cap ▸ hfits, ?_, h.cap⟩
    rw [joined_append, ← h.line]
  · rw [hcall]
    exact ⟨s, rfl, h⟩

/-- **The command line.** After any calls the line is printable, shorter than the capacity, and
the accepted pieces with single spaces between them. The next call succeeds exactly if its
characters are allowed and the result fits, and changes nothing if it fails. -/
theorem cmdline_joined {capacity : ℕ} {c : Cmdline} (h : new capacity = some c)
    (calls : List CmdlineCall) :
    ∃ s, run step (c, []) calls = some s ∧ (∀ c ∈ s.1.line, validChar c = true) ∧
      len s.1.line < capacity ∧ s.1.line = joined s.2 ∧
      ∀ call : CmdlineCall, ∃ r c', s.1.call call = some (r, c') ∧
        (r = .ok () ↔ call.Allowed ∧ len (joined (s.2 ++ [call.piece])) < capacity) ∧
        (r ≠ .ok () → c' = s.1) := by
  unfold new at h
  split_ifs at h with hpos
  cases h
  have hfirst : Built capacity (⟨[], capacity⟩, []) :=
    ⟨nofun, Nat.pos_of_ne_zero hpos, rfl, rfl⟩
  obtain ⟨s, hrun, hs⟩ := run_total (fun s call h => h.step call) hfirst calls
  refine ⟨s, hrun, hs.valid, hs.short, hs.line, fun call => ?_⟩
  rw [joined_append, ← hs.line, ← hs.cap]
  obtain ⟨hallowed, hfits, hcall⟩ | ⟨hnot, e, hcall⟩ := s.1.call_spec call
  · exact ⟨_, _, hcall, ⟨fun _ => ⟨hallowed, hfits⟩, fun _ => rfl⟩, fun h => absurd rfl h⟩
  · exact ⟨_, _, hcall, ⟨nofun, fun h => absurd h hnot⟩, fun _ => rfl⟩

def smallCalls : List CmdlineCall :=
  [.insertStr [], .insert ['a'] ['b'], .insert ['='] [], .insertStr "c d e".toList,
    .insertStr "xy".toList]

theorem cmdline_joined_small :
    (∃ s, run step (⟨[], 10⟩, []) smallCalls = some s ∧ s.1.line = joined s.2) ∧
      (run step (⟨[], 10⟩, []) smallCalls).map (·.1.line) = some "a=b c d e".toList :=
  ⟨(cmdline_joined (rfl : new 10 = some ⟨[], 10⟩) smallCalls).imp fun _ h => ⟨h.1, h.2.2.2.1⟩,
    by decide⟩

end Cmdline

end Shelter.Kernel
