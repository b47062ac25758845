import Shelter.Memory.GuestMemory
import Shelter.Lib.Run

/-!
# A vCPU thread and its VMM

The thread of a vCPU runs a state machine of three states. In `paused` it waits for an event, in
`running` it calls `KVM_RUN` in a loop and looks for an event when a call was interrupted, and in
`exited` it waits for the end of the process. The VMM sends an event over a channel and then kicks
the thread with a signal, whose handler sets the flag `immediate_exit`, so that the next `KVM_RUN`
returns at once.

The steps of the model are those that others can come between: a `KVM_RUN` and its return, the
clearing of the flag, the receipt of an event and the response to it on the side of the thread; the
send and the kick of `send_event`, and the end of the handle, on the side of the VMM; and the
delivery of a signal, which may be late. Any result of `KVM_RUN` is possible at any time.

`vcpu_disciplined` says what the VMM can rely on, in every interleaving.
-/

namespace Shelter.Vmm

open List Option

inductive VcpuEvent
  | pause
  | resume
  deriving DecidableEq, Repr

inductive VcpuResponse
  | paused
  | resumed
  | exited (code : BitVec 8)
  deriving DecidableEq, Repr

def fcExitCodeOk : BitVec 8 := 0
def fcExitCodeGenericError : BitVec 8 := 1

/-- The exits of KVM; `other` are the ones that the code does not name. -/
inductive VcpuExit
  | ioIn
  | ioOut
  | mmioRead
  | mmioWrite
  | hlt
  | shutdown
  | failEntry
  | internalError
  | other
  deriving DecidableEq, Repr

inductive Errno
  | eagain
  | eintr
  | other
  deriving DecidableEq, Repr

inductive VcpuEmulation
  | handled
  | interrupted
  | stopped
  deriving DecidableEq, Repr

/-- `VcpuUnhandledKvmExit` -/
inductive EmulationError
  | vcpuUnhandledKvmExit
  deriving DecidableEq, Repr

/-- What `run_emulation` makes of the result of `KVM_RUN`. -/
def runEmulation : Except Errno VcpuExit → Except EmulationError VcpuEmulation
  | .ok .ioIn | .ok .ioOut | .ok .mmioRead | .ok .mmioWrite => .ok .handled
  | .ok .hlt | .ok .shutdown => .ok .stopped
  | .ok .failEntry | .ok .internalError | .ok .other => .error .vcpuUnhandledKvmExit
  | .error .eagain => .ok .handled
  | .error .eintr => .ok .interrupted
  | .error .other => .error .vcpuUnhandledKvmExit

inductive StateFn
  | paused
  | running
  | exited
  deriving DecidableEq, Repr

inductive TryRecvError
  | empty
  | disconnected
  deriving DecidableEq, Repr

/-- `running`, after an interruption: the response to what `try_recv` returned, and the next
state. -/
def running : Except TryRecvError VcpuEvent → Option VcpuResponse × StateFn
  | .ok .pause => (some .paused, .paused)
  | .ok .resume => (some .resumed, .running)
  | .error .disconnected => (some (.exited fcExitCodeGenericError), .exited)
  | .error .empty => (none, .running)

/-- `paused`: the same for `recv`, which fails only if the channel is closed. -/
def paused : Option VcpuEvent → Option VcpuResponse × StateFn
  | some .resume => (some .resumed, .running)
  | some .pause => (none, .paused)
  | none => (some (.exited fcExitCodeGenericError), .exited)

inductive Pc
  /-- at the start of a state -/
  | state (s : StateFn)
  /-- in `KVM_RUN` -/
  | inGuest
  /-- after an interrupted `KVM_RUN`, about to clear the flag -/
  | clearing
  /-- about to call `try_recv` -/
  | receiving
  /-- about to send a response and to change the state -/
  | replying (r : VcpuResponse) (next : StateFn)
  /-- the response could not be sent -/
  | panicked (r : VcpuResponse)
  deriving DecidableEq, Repr

def Pc.next : Option VcpuResponse × StateFn → Pc
  | (some r, s) => .replying r s
  | (none, s) => .state s

/-- The loop of `running` goes on, looks for an event, or ends in `exit`. -/
def Pc.afterRun (result : Except Errno VcpuExit) : Pc :=
  match runEmulation result with
  | .ok .handled => .state .running
  | .ok .interrupted => .clearing
  | .ok .stopped => .replying (.exited fcExitCodeOk) .exited
  | .error _ => .replying (.exited fcExitCodeGenericError) .exited

/-- What the thread does that others can see, and the events it takes in a state. -/
inductive Obs
  | entered
  | consumed (s : StateFn) (e : VcpuEvent)
  | sent (r : VcpuResponse)
  deriving DecidableEq, Repr

/-- A thread and its VMM. The events have numbers in the order in which they were sent. -/
structure Vcpu where
  pc : Pc
  immediateExit : Bool
  /-- the event channel -/
  queue : List (ℕ × VcpuEvent)
  /-- how many events were sent -/
  count : ℕ
  /-- the VMM holds its ends of the two channels -/
  handle : Bool
  /-- the events whose `send_event` has not come to the kick -/
  unkicked : List ℕ
  /-- the kicks that were not yet delivered -/
  kicks : List ℕ
  /-- the events whose kicks were delivered -/
  delivered : List ℕ
  /-- the observations, the last one first -/
  log : List Obs
  deriving DecidableEq, Repr

def Vcpu.start : Vcpu := ⟨.state .paused, false, [], 0, true, [], [], [], []⟩

inductive Step
  | send (e : VcpuEvent)
  /-- the kick for an event; `ok` says whether the signal was queued -/
  | kill (n : ℕ) (ok : Bool)
  | dropHandle
  | deliver (n : ℕ)
  | recv
  | enter
  | exit (result : Except Errno VcpuExit)
  | clear
  | tryRecv
  | reply
  deriving DecidableEq, Repr

namespace Vcpu

variable (v : Vcpu)

/-- `recv` in the state `paused`; it blocks while the channel is empty and open. -/
def recv : Option Vcpu :=
  match v.queue with
  | (_, e) :: rest =>
    some { v with
      queue := rest
      pc := .next (paused (some e))
      log := .consumed .paused e :: v.log }
  | [] => if v.handle then none else some { v with pc := .next (paused none) }

/-- `try_recv` in the state `running`. -/
def tryRecv : Vcpu :=
  match v.queue with
  | (_, e) :: rest =>
    { v with
      queue := rest
      pc := .next (running (.ok e))
      log := .consumed .running e :: v.log }
  | [] => { v with pc := .next (running (.error (if v.handle then .empty else .disconnected))) }

def reply (r : VcpuResponse) (next : StateFn) : Vcpu :=
  if v.handle then { v with pc := .state next, log := .sent r :: v.log }
  else { v with pc := .panicked r }

/-- One step of the thread, of the VMM or of a signal; `none` if it is not possible now. -/
def step (v : Vcpu) : Step → Option Vcpu
  | .send e =>
    if v.handle then
      some { v with
        queue := v.queue ++ [(v.count, e)]
        count := v.count + 1
        unkicked := v.count :: v.unkicked }
    else none
  | .kill n ok =>
    if n ∈ v.unkicked then
      some { v with
        unkicked := v.unkicked.erase n
        kicks := if ok then n :: v.kicks else v.kicks }
    else none
  -- a handle that is in use is not dropped
  | .dropHandle => if v.unkicked = [] then some { v with handle := false } else none
  | .deliver n =>
    if n ∈ v.kicks then
      some { v with
        kicks := v.kicks.erase n
        delivered := n :: v.delivered
        immediateExit := true }
    else none
  | .recv => if v.pc = .state .paused then v.recv else none
  | .enter =>
    if v.pc = .state .running then some { v with pc := .inGuest, log := .entered :: v.log }
    else none
  | .exit result => if v.pc = .inGuest then some { v with pc := .afterRun result } else none
  | .clear =>
    if v.pc = .clearing then some { v with pc := .receiving, immediateExit := false } else none
  | .tryRecv => if v.pc = .receiving then some v.tryRecv else none
  | .reply =>
    match v.pc with
    | .replying r next => some (v.reply r next)
    | _ => none

end Vcpu

/-! ## What the VMM sees -/

def ToldRunning (earlier : List Obs) : Prop :=
  ∃ since before, earlier = since ++ .sent .resumed :: before ∧ .sent .paused ∉ since

def respond : StateFn → VcpuEvent → Option VcpuResponse
  | .paused, .resume | .running, .resume => some .resumed
  | .running, .pause => some .paused
  | .paused, .pause | .exited, _ => none

def VcpuResponse.isExited : VcpuResponse → Bool
  | .exited _ => true
  | .paused | .resumed => false

def responses (log : List Obs) : List VcpuResponse :=
  log.filterMap fun
    | .sent r => some r
    | .entered | .consumed _ _ => none

def answers (log : List Obs) : List VcpuResponse :=
  log.filterMap fun
    | .consumed s e => respond s e
    | .entered | .sent _ => none

def Pc.owed : Pc → List VcpuResponse
  | .replying r _ | .panicked r => [r]
  | .state _ | .inGuest | .clearing | .receiving => []

/-- What the thread keeps to. A log has its last entry first. -/
structure Disciplined (v : Vcpu) : Prop where
  /-- it enters the guest only after it has sent `Resumed`, and not after `Paused` since -/
  entries : ∀ later earlier, v.log = later ++ .entered :: earlier → ToldRunning earlier
  /-- it responds to each event that it consumes, in order, and to nothing else -/
  replies : (v.pc.owed ++ responses v.log).filter (fun r => !r.isExited) = answers v.log
  /-- `Exited` is the last that it sends -/
  last : ∀ later earlier code, v.log = later ++ .sent (.exited code) :: earlier → later = []
  /-- sending fails only if the VMM has dropped its end, and is then the last thing it does -/
  failed : ∀ r, v.pc = .panicked r → v.handle = false

/-! ## One step -/

/-- Places in the loop of `running`. -/
def Pc.Running : Pc → Prop
  | .state .running | .inGuest | .clearing | .receiving => True
  | .state .paused | .state .exited | .replying _ _ | .panicked _ => False

def Pc.Fits : Pc → Prop
  | .replying r next =>
    (next = .running → r = .resumed) ∧ (r.isExited = true → next = .exited)
  | .state _ | .inGuest | .clearing | .receiving | .panicked _ => True

/-- `Disciplined`, with what carries it from step to step. -/
structure Inv (v : Vcpu) : Prop extends Disciplined v where
  told : v.pc.Running → ToldRunning v.log
  fits : v.pc.Fits
  ended : ∀ code, .sent (.exited code) ∈ v.log → v.pc = .state .exited

section Step

variable {v v' : Vcpu}

theorem ToldRunning.cons {o : Obs} {log : List Obs} (h : ToldRunning log)
    (ho : o ≠ .sent .paused) : ToldRunning (o :: log) := by
  obtain ⟨since, before, rfl, hsince⟩ := h
  refine ⟨o :: since, before, rfl, ?_⟩
  simp only [mem_cons, not_or]
  exact ⟨ho.symm, hsince⟩

theorem toldRunning_resumed (log : List Obs) : ToldRunning (.sent .resumed :: log) :=
  ⟨[], log, rfl, not_mem_nil⟩

/-- The place of the thread is written into the state, where what is known of it computes. -/
theorem Inv.at_pc (h : Inv v) {pc : Pc} (hpc : v.pc = pc) : Inv { v with pc := pc } := by
  subst hpc
  exact h

theorem Inv.move (h : Inv v) {pc : Pc} (hfrom : v.pc ≠ .state .exited)
    (howed : pc.owed.filter (fun r => !r.isExited) = v.pc.owed.filter fun r => !r.isExited)
    (hfits : pc.Fits) (htold : pc.Running → v.pc.Running)
    (hfailed : ∀ r, pc = .panicked r → v.handle = false) : Inv { v with pc := pc } where
  __ := h
  replies := by
    have hreplies := h.replies
    rw [filter_append] at hreplies ⊢
    rw [← hreplies]
    exact congrArg (· ++ _) howed
  failed := hfailed
  told hr := h.told (htold hr)
  fits := hfits
  ended code hcode := absurd (h.ended code hcode) hfrom

theorem Inv.logged (h : Inv v) {pc : Pc} {o : Obs} {queue : List (ℕ × VcpuEvent)}
    (hfrom : v.pc ≠ .state .exited) (hentered : o = .entered → v.pc.Running)
    (hreplies : (pc.owed ++ responses (o :: v.log)).filter (fun r => !r.isExited) =
      answers (o :: v.log))
    (hfits : pc.Fits) (htold : pc.Running → ToldRunning (o :: v.log))
    (hended : ∀ code, o = .sent (.exited code) → pc = .state .exited)
    (hfailed : ∀ r, pc ≠ .panicked r) :
    Inv { v with pc := pc, queue := queue, log := o :: v.log } where
  entries later earlier hsplit := by
    rcases cons_eq_append_iff.mp hsplit with ⟨_, hx⟩ | ⟨later', _, hlog⟩
    · obtain ⟨rfl, rfl⟩ := List.cons.inj hx
      exact h.told (hentered rfl)
    · exact h.entries later' earlier hlog
  replies := hreplies
  last later earlier code hsplit := by
    rcases cons_eq_append_iff.mp hsplit with ⟨hlater, _⟩ | ⟨later', _, hlog⟩
    · exact hlater
    · -- the thread would have stopped there
      refine absurd (h.ended code ?_) hfrom
      rw [hlog]
      exact mem_append_right _ mem_cons_self
  failed r hr := absurd hr (hfailed r)
  told := htold
  fits := hfits
  ended code hcode := by
    rcases mem_cons.mp hcode with ho | hlog
    · exact hended code ho.symm
    · exact absurd (h.ended code hlog) hfrom

theorem inv_afterRun (h : Inv v) (hpc : v.pc = .inGuest) (result : Except Errno VcpuExit) :
    Inv { v with pc := .afterRun result } := by
  replace h := h.at_pc hpc
  unfold Pc.afterRun
  split
  · exact h.move nofun rfl trivial id nofun
  · exact h.move nofun rfl trivial id nofun
  all_goals exact h.move nofun rfl ⟨nofun, fun _ => rfl⟩ nofun nofun

theorem inv_tryRecv (h : Inv v) (hpc : v.pc = .receiving) : Inv v.tryRecv := by
  replace h := h.at_pc hpc
  unfold Vcpu.tryRecv
  split
  next n e rest hqueue =>
    cases e with
    | pause =>
      exact h.logged nofun nofun (congrArg (VcpuResponse.paused :: ·) h.replies) ⟨nofun, nofun⟩
        nofun nofun nofun
    | resume =>
      exact h.logged nofun nofun (congrArg (VcpuResponse.resumed :: ·) h.replies)
        ⟨fun _ => rfl, nofun⟩ nofun nofun nofun
  next hqueue =>
    split_ifs
    · exact h.move nofun rfl trivial id nofun
    · exact h.move nofun rfl ⟨nofun, fun _ => rfl⟩ nofun nofun

theorem inv_recv (h : Inv v) (hpc : v.pc = .state .paused) (hs : v.recv = some v') : Inv v' := by
  replace h := h.at_pc hpc
  unfold Vcpu.recv at hs
  split at hs
  next n e rest hqueue =>
    cases hs
    cases e with
    | pause => exact h.logged nofun nofun h.replies trivial nofun nofun nofun
    | resume =>
      exact h.logged nofun nofun (congrArg (VcpuResponse.resumed :: ·) h.replies)
        ⟨fun _ => rfl, nofun⟩ nofun nofun nofun
  next hqueue =>
    split_ifs at hs
    cases hs
    exact h.move nofun rfl ⟨nofun, fun _ => rfl⟩ nofun nofun

theorem inv_reply (h : Inv v) {r : VcpuResponse} {next : StateFn} (hpc : v.pc = .replying r next) :
    Inv (v.reply r next) := by
  replace h := h.at_pc hpc
  obtain ⟨hresumed, hexited⟩ := h.fits
  unfold Vcpu.reply
  split_ifs with hhandle
  · refine h.logged nofun nofun h.replies trivial ?_ ?_ nofun
    · -- only `Resumed` is followed by the running state
      intro hrunning
      have hnext : next = .running := by
        cases next with
        | running => rfl
        | paused | exited => exact hrunning.elim
      rw [hresumed hnext]
      exact toldRunning_resumed v.log
    · intro code hcode
      obtain rfl := Obs.sent.inj hcode
      rw [hexited rfl]
  · refine h.move nofun rfl trivial nofun fun _ _ => ?_
    simpa using hhandle

theorem inv_step {e : Step} (h : Inv v) (hs : v.step e = some v') : Inv v' := by
  cases e with
  | send | kill | deliver =>
    obtain ⟨_, ⟨⟩⟩ := ite_none_right_eq_some.mp hs
    exact { h with }
  | dropHandle =>
    obtain ⟨_, ⟨⟩⟩ := ite_none_right_eq_some.mp hs
    exact { h with failed := fun _ _ => rfl }
  | recv =>
    obtain ⟨hpc, hs⟩ := ite_none_right_eq_some.mp hs
    exact inv_recv h hpc hs
  | enter =>
    obtain ⟨hpc, ⟨⟩⟩ := ite_none_right_eq_some.mp hs
    replace h := h.at_pc hpc
    exact h.logged nofun (fun _ => trivial) h.replies trivial
      (fun _ => (h.told trivial).cons Obs.noConfusion) nofun nofun
  | exit result =>
    obtain ⟨hpc, ⟨⟩⟩ := ite_none_right_eq_some.mp hs
    exact inv_afterRun h hpc result
  | clear =>
    obtain ⟨hpc, ⟨⟩⟩ := ite_none_right_eq_some.mp hs
    have hmove : Inv { v with pc := .receiving } :=
      (h.at_pc hpc).move nofun rfl trivial id nofun
    exact { hmove with }
  | tryRecv =>
    obtain ⟨hpc, ⟨⟩⟩ := ite_none_right_eq_some.mp hs
    exact inv_tryRecv h hpc
  | reply =>
    simp only [Vcpu.step] at hs
    split at hs
    next r next hpc =>
      cases hs
      exact inv_reply h hpc
    next => cases hs

theorem inv_start : Inv Vcpu.start where
  entries later earlier h := by simp [Vcpu.start] at h
  replies := rfl
  last later earlier code h := by simp [Vcpu.start] at h
  failed r h := nomatch h
  told h := h.elim
  fits := trivial
  ended code h := by simp [Vcpu.start] at h

end Step

/-- **The vCPU thread.** In every interleaving of the thread, the VMM and the signals, the thread
enters the guest only while the VMM has been told that it runs, responds to the events it consumes
one by one, and sends nothing after `Exited`. -/
theorem vcpu_disciplined {steps : List Step} {v : Vcpu}
    (h : Run.run Vcpu.step Vcpu.start steps = some v) : Disciplined v :=
  (Run.run_invariant (fun _ _ _ => inv_step) inv_start h).toDisciplined

/-- A vCPU that is resumed, runs, is paused twice, is resumed again and stops. -/
def session : List Step :=
  [.send .resume, .kill 0 true, .recv, .reply, .enter, .deliver 0, .send .pause, .kill 1 true,
    .exit (.error .eintr), .clear, .deliver 1, .tryRecv, .reply, .send .pause, .recv,
    .send .resume, .recv, .reply, .enter, .exit (.ok .mmioRead), .enter, .exit (.ok .hlt), .reply]

theorem vcpu_disciplined_session :
    ∃ v, Run.run Vcpu.step Vcpu.start session = some v ∧
      responses v.log = [.exited 0, .resumed, .paused, .resumed] ∧ Disciplined v := by
  obtain ⟨v, hv, hresponses⟩ : ∃ v, Run.run Vcpu.step Vcpu.start session = some v ∧
      responses v.log = [.exited 0, .resumed, .paused, .resumed] := by decide +kernel
  exact ⟨v, hv, hresponses, vcpu_disciplined hv⟩

end Shelter.Vmm
