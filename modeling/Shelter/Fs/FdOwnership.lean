import Shelter.Lib.Run

/-!
# The descriptor of `setupmapping`

The `File` that `open_inode` returns owns its descriptor and closes it when it is dropped, which is
when `setupmapping` returns. After a successful `mmap` the function has closed the descriptor by
hand by then, so it is closed twice, and in between the number may have gone to another thread.

A request is a thread with one step for each system call that concerns its descriptor. Requests run
interleaved with each other and with threads that open and close files of their own.
-/

open Run

namespace Shelter.Fs

inductive FdOwner
  | request (n : ℕ)
  | other (n : ℕ)
  deriving DecidableEq, Repr

inductive MapStage
  | start
  /-- returned without a descriptor -/
  | refused
  | opened (fd : ℕ)
  | mapped (fd : ℕ)
  /-- about to drop the file -/
  | dropping (fd : ℕ) (isMapped : Bool)
  | ended (isMapped : Bool)
  deriving DecidableEq, Repr

namespace MapStage

/-- The descriptor that belongs to the request. -/
def held : MapStage → Option ℕ
  | opened fd | mapped fd | dropping fd false => some fd
  | _ => none

def closed : MapStage → Bool
  | dropping _ isMapped => isMapped
  | ended _ => true
  | _ => false

end MapStage

structure FdTable where
  files : ℕ → Option FdOwner
  stages : ℕ → MapStage
  /-- for each request, to whom each descriptor it closed belonged at that moment -/
  closes : ℕ → List (Option FdOwner)

inductive FdEvent
  | openInode (r fd : ℕ)
  | refuse (r : ℕ)
  | mmap (r : ℕ) (ok : Bool)
  | close (r : ℕ)
  | drop (r : ℕ)
  | otherOpen (n fd : ℕ)
  | otherClose (fd : ℕ)

namespace FdTable

/-- The table of a process in which the other threads have files open. -/
def start (others : ℕ → Option ℕ) : FdTable :=
  ⟨fun fd => (others fd).map .other, fun _ => .start, fun _ => []⟩

variable (s : FdTable)

/-- The descriptor the kernel hands out next. -/
def Lowest (fd : ℕ) : Prop := s.files fd = none ∧ ∀ k < fd, s.files k ≠ none

instance (fd : ℕ) : Decidable (s.Lowest fd) := inferInstanceAs (Decidable (_ ∧ _))

def assign (fd : ℕ) (owner : Option FdOwner) : FdTable :=
  { s with files := fun k => if k = fd then owner else s.files k }

def goTo (r : ℕ) (stage : MapStage) : FdTable :=
  { s with stages := fun k => if k = r then stage else s.stages k }

/-- `close`, by a request, of whatever has the number. -/
def closeFd (r fd : ℕ) : FdTable :=
  { s.assign fd none with
    closes := fun k => if k = r then s.closes r ++ [s.files fd] else s.closes k }

def step : FdEvent → Option FdTable
  | .openInode r fd =>
    if s.stages r = .start ∧ s.Lowest fd then
      some ((s.assign fd (some (.request r))).goTo r (.opened fd))
    else none
  | .refuse r => if s.stages r = .start then some (s.goTo r .refused) else none
  | .mmap r ok =>
    match s.stages r with
    | .opened fd => some (s.goTo r (if ok then .mapped fd else .dropping fd false))
    | _ => none
  | .close r =>
    match s.stages r with
    | .mapped fd => some ((s.closeFd r fd).goTo r (.dropping fd true))
    | _ => none
  | .drop r =>
    match s.stages r with
    | .dropping fd mapped => some ((s.closeFd r fd).goTo r (.ended mapped))
    | _ => none
  | .otherOpen n fd => if s.Lowest fd then some (s.assign fd (some (.other n))) else none
  | .otherClose fd =>
    match s.files fd with
    | some (.other _) => some (s.assign fd none)
    | _ => none

/-- Requests close their own descriptor only, and exactly once. -/
def ClosesRight : Prop :=
  ∀ r, (∀ owner ∈ s.closes r, owner = some (.request r)) ∧
    ∀ mapped, s.stages r = .ended mapped → (s.closes r).length = 1

/-- A request has what its stage says, and has closed it if its stage says so. -/
structure Orderly (s : FdTable) (r : ℕ) : Prop where
  held : ∀ fd, s.files fd = some (.request r) ↔ (s.stages r).held = some fd
  closes : s.closes r = if (s.stages r).closed then [some (.request r)] else []
  ended : s.stages r ≠ .ended true

/-- A request that has closed its descriptor after `mmap` closes another one, or none. -/
def Astray : Prop :=
  ∃ r, s.stages r = .ended true ∧ ∃ owner ∈ s.closes r, owner ≠ some (.request r)

variable {s s' : FdTable} {e : FdEvent} {r fd : ℕ}

attribute [grind =] MapStage.held MapStage.closed

theorem astray_step (h : s.Astray) (hstep : s.step e = some s') : s'.Astray := by
  obtain ⟨r, hr, hclose⟩ := h
  have hsame : s'.stages r = .ended true ∧ s'.closes r = s.closes r := by
    cases e <;> simp only [step, goTo, closeFd, assign] at hstep <;> grind
  exact ⟨r, hsame.1, by rwa [hsame.2]⟩

theorem orderly_step (h : ∀ r, s.Orderly r) (hstep : s.step e = some s') :
    s'.Astray ∨ ∀ r, s'.Orderly r := by
  by_cases htwice : ∃ r fd, e = .drop r ∧ s.stages r = .dropping fd true
  · obtain ⟨r, fd, rfl, hr⟩ := htwice
    -- what has the number now is not the file of the request, which is closed
    have hgone : s.files fd ≠ some (.request r) := by
      rw [Ne, (h r).held, hr]
      nofun
    simp only [step, hr, goTo, closeFd] at hstep
    cases hstep
    exact .inl ⟨r, if_pos rfl, s.files fd, by simp, hgone⟩
  · have hmapped : ∀ r fd, s.stages r = .mapped fd → s.files fd = some (.request r) :=
      fun r fd hr => ((h r).held fd).mpr (by rw [hr]; rfl)
    have hdrop : ∀ r fd b, e = .drop r → s.stages r = .dropping fd b →
        b = false ∧ s.files fd = some (.request r) := by
      rintro r fd (_ | _) he hr
      · exact ⟨rfl, ((h r).held fd).mpr (by rw [hr]; rfl)⟩
      · exact absurd ⟨r, fd, he, hr⟩ htwice
    refine .inr fun r' => ?_
    obtain ⟨hheld, hcloses, hended⟩ := h r'
    cases e <;> simp only [step, goTo, closeFd, assign] at hstep <;> constructor <;> grind [Lowest]

/-- The requests close what is theirs, once, if and only if none has returned from a successful
`mmap`. -/
theorem closes_right_iff {others : ℕ → Option ℕ} {es : List FdEvent}
    (hrun : run step (start others) es = some s) :
    s.ClosesRight ↔ ∀ r, s.stages r ≠ .ended true := by
  have hinv : s.Astray ∨ ∀ r, s.Orderly r := by
    refine run_invariant (P := fun s => s.Astray ∨ ∀ r, s.Orderly r) ?_ (.inr fun r => ?_) hrun
    · rintro s e s' (h | h) hstep
      · exact .inl (astray_step h hstep)
      · exact orderly_step h hstep
    · exact ⟨fun fd => by cases h : others fd <;> simp [start, h, MapStage.held], rfl, nofun⟩
  rcases hinv with ⟨r, hr, owner, howner, hne⟩ | h
  · exact iff_of_false (fun hs => hne ((hs r).1 owner howner)) fun hn => hn r hr
  · refine iff_of_true (fun r => ?_) fun r => (h r).ended
    rw [(h r).closes]
    refine ⟨by split <;> simp, fun mapped hr => ?_⟩
    rw [hr]
    rfl

/-- Three descriptors are open; the requests get the next ones. -/
def threeOpen : ℕ → Option ℕ := fun fd => if fd < 3 then some fd else none

theorem closes_right_unmapped :
    ∃ s, run step (start threeOpen) [.openInode 0 3, .otherOpen 3 4, .mmap 0 false, .drop 0] =
      some s ∧ s.stages 0 = .ended false ∧ s.ClosesRight := by
  obtain ⟨s, hs⟩ : ∃ s, run step (start threeOpen)
      [.openInode 0 3, .otherOpen 3 4, .mmap 0 false, .drop 0] = some s := ⟨_, rfl⟩
  refine ⟨s, hs, ?_, (closes_right_iff hs).mpr fun r => ?_⟩ <;> cases hs
  · rfl
  · by_cases hr : r = 0 <;> simp [goTo, closeFd, assign, start, hr]

/-- Another thread is given the number before the file is dropped. -/
theorem closes_foreign :
    ((run step (start threeOpen) [.openInode 0 3, .mmap 0 true, .close 0, .otherOpen 3 3,
        .drop 0]).map fun s => s.closes 0) = some [some (.request 0), some (.other 3)] := by
  decide

end FdTable

end Shelter.Fs
