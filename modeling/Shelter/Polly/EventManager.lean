import Mathlib.Data.BitVec
import Mathlib.Logic.Function.Basic
import Shelter.Lib.Run
import Shelter.Memory.GuestMemory

/-!
# The event manager

A file descriptor has a subscriber in a table of the manager and is registered in an epoll instance.
The two are changed one after the other. `sets_agree_iff`: they name the same descriptors after
every call, and a call that fails leaves them as they were, exactly if no deletion that a call makes
fails and no `add_subscriber` fails after its first registration.
-/

namespace Shelter.Polly

open Run Function

/-- The number of a file descriptor, an `i32`. -/
abbrev Pollable := BitVec 32

structure EpollEvent where
  events : U32
  data : U64
  deriving DecidableEq, Repr

def EpollEvent.default : EpollEvent := ⟨0, 0⟩

inductive ControlOperation
  | add
  | modify
  | delete
  deriving DecidableEq, Repr

inductive IoError
  | alreadyExists
  | notFound
  | other (errno : ℕ)
  deriving DecidableEq, Repr

abbrev Epoll := Pollable → Option EpollEvent

/-- `epoll_ctl`. A descriptor is added only once, and only one that was added is changed or deleted;
for anything else the host may refuse it. A call that is refused changes nothing. -/
def Epoll.ctl (epoll : Epoll) (refused : Option IoError) (operation : ControlOperation)
    (fd : Pollable) (event : EpollEvent) : Except IoError Epoll :=
  match refused with
  | some e => .error e
  | none =>
    match operation, epoll fd with
    | .add, none => .ok (Function.update epoll fd (some event))
    | .add, some _ => .error .alreadyExists
    | .modify, some _ => .ok (Function.update epoll fd (some event))
    | .modify, none => .error .notFound
    | .delete, some _ => .ok (Function.update epoll fd none)
    | .delete, none => .error .notFound

inductive Error
  | poll (e : IoError)
  | alreadyExists (fd : Pollable)
  | notFound (fd : Pollable)
  deriving DecidableEq, Repr

structure EventManager (S : Type) where
  epoll : Epoll
  subscribers : Pollable → Option S

inductive Reply
  | ok
  | error (e : Error)
  | pollable (answer : Bool)
  | panicked
  deriving DecidableEq, Repr

inductive Call (S : Type)
  | addSubscriber (subscriber : S) (interestList : List EpollEvent)
  | register (pollable : Pollable) (event : EpollEvent) (subscriber : S)
  | unregister (pollable : Pollable)
  | modify (pollable : Pollable) (event : EpollEvent)
  | isPollable (pollable : Pollable)

namespace EventManager

variable {S : Type}

def new : EventManager S := ⟨fun _ => none, fun _ => none⟩

variable (m : EventManager S)

def register (refused : Option IoError) (pollable : Pollable)
    (event : EpollEvent) (subscriber : S) : Reply × EventManager S :=
  if (m.subscribers pollable).isSome then (.error (.alreadyExists pollable), m)
  else
    match m.epoll.ctl refused .add pollable event with
    | .error e => (.error (.poll e), m)
    | .ok epoll => (.ok, ⟨epoll, Function.update m.subscribers pollable (some subscriber)⟩)

def registerAll (m : EventManager S) (refused : ℕ → Option IoError) (subscriber : S) :
    List EpollEvent → Reply × EventManager S
  | [] => (.ok, m)
  | event :: rest =>
    match m.register (refused 0) (event.data.setWidth 32) event subscriber with
    | (.ok, m') => m'.registerAll (fun k => refused (k + 1)) subscriber rest
    | (reply, m') => (reply, m')

def unregister (m : EventManager S) (refused : Option IoError) (pollable : Pollable) :
    Reply × EventManager S :=
  match m.subscribers pollable with
  | some _ =>
    let removed := Function.update m.subscribers pollable none
    match m.epoll.ctl refused .delete pollable .default with
    | .error e => (.error (.poll e), ⟨m.epoll, removed⟩)
    | .ok epoll => (.ok, ⟨epoll, removed⟩)
  | none => (.error (.notFound pollable), m)

def modify (m : EventManager S) (refused : Option IoError) (pollable : Pollable)
    (event : EpollEvent) : Reply × EventManager S :=
  if (m.subscribers pollable).isSome then
    match m.epoll.ctl refused .modify pollable event with
    | .error e => (.error (.poll e), m)
    | .ok epoll => (.ok, { m with epoll })
  else (.error (.notFound pollable), m)

def isPollable (refused : ℕ → Option IoError) (pollable : Pollable) : Reply × EventManager S :=
  match m.epoll.ctl (refused 0) .add pollable .default with
  | .error _ => (.pollable false, m)
  | .ok epoll =>
    match epoll.ctl (refused 1) .delete pollable .default with
    | .error _ => (.panicked, { m with epoll })
    | .ok epoll' => (.pollable true, { m with epoll := epoll' })

/-- A call; `refused k` is what the host says to its `k`th `epoll_ctl`. -/
def call (m : EventManager S) (refused : ℕ → Option IoError) : Call S → Reply × EventManager S
  | .addSubscriber subscriber interestList => m.registerAll refused subscriber interestList
  | .register pollable event subscriber => m.register (refused 0) pollable event subscriber
  | .unregister pollable => m.unregister (refused 0) pollable
  | .modify pollable event => m.modify (refused 0) pollable event
  | .isPollable pollable => m.isPollable refused pollable

variable (e : Call S × (ℕ → Option IoError))

def step : Option (EventManager S) :=
  match m.call e.2 e.1 with
  | (.panicked, _) => none
  | (_, m') => some m'

/-! ## The two sets -/

/-- The descriptors with a subscriber are those registered in epoll. -/
def Agrees : Prop :=
  ∀ fd, (m.subscribers fd).isSome = (m.epoll fd).isSome

/-- The sets agree after the call, and if it fails nothing has changed. -/
def Kept : Prop :=
  (m.call e.2 e.1).2.Agrees ∧
    ((∃ error, (m.call e.2 e.1).1 = .error error) → (m.call e.2 e.1).2 = m)

/-- The descriptor of `event` has a subscriber, or will have one once `before` is registered. -/
def Taken (before : List EpollEvent) (event : EpollEvent) : Prop :=
  (m.subscribers (event.data.setWidth 32)).isSome ∨
    ∃ earlier ∈ before, earlier.data.setWidth 32 = event.data.setWidth 32

/-- The host refuses a deletion, or `add_subscriber` comes to an event that is refused or taken
after one that it could register. -/
def Slips : Call S × (ℕ → Option IoError) → Prop
  | (.addSubscriber _ (first :: rest), refused) =>
    (m.subscribers (first.data.setWidth 32) = none ∧ refused 0 = none) ∧
      ∃ before event after, rest = before ++ event :: after ∧
        (refused (before.length + 1) ≠ none ∨ m.Taken (first :: before) event)
  | (.unregister pollable, refused) => (m.subscribers pollable).isSome ∧ refused 0 ≠ none
  | (.isPollable pollable, refused) =>
    m.epoll pollable = none ∧ refused 0 = none ∧ refused 1 ≠ none
  | (.addSubscriber _ [], _) | (.register _ _ _, _) | (.modify _ _, _) => False

section Agrees

variable {m : EventManager S}

theorem Agrees.registered (h : m.Agrees) {fd : Pollable} (hs : (m.subscribers fd).isSome = true) :
    ∃ event, m.epoll fd = some event :=
  Option.isSome_iff_exists.mp ((h fd).symm.trans hs)

theorem Agrees.unregistered (h : m.Agrees) {fd : Pollable} (hs : m.subscribers fd = none) :
    m.epoll fd = none := by
  have hsame := h fd
  rw [hs] at hsame
  exact Option.isNone_iff_eq_none.mp (Option.isSome_eq_false_iff.mp hsame.symm)

theorem Agrees.added (h : m.Agrees) (fd : Pollable) (event : EpollEvent) (subscriber : S) :
    Agrees ⟨Function.update m.epoll fd (some event),
      Function.update m.subscribers fd (some subscriber)⟩ := by
  intro fd'
  by_cases heq : fd' = fd
  · subst heq
    simp
  · simp only [update_of_ne heq]
    exact h fd'

theorem Agrees.removed (h : m.Agrees) (fd : Pollable) :
    Agrees ⟨Function.update m.epoll fd none, Function.update m.subscribers fd none⟩ := by
  intro fd'
  by_cases heq : fd' = fd
  · subst heq
    simp
  · simp only [update_of_ne heq]
    exact h fd'

theorem register_cases (h : m.Agrees) (refused : Option IoError) (fd : Pollable)
    (event : EpollEvent) (subscriber : S) :
    (¬ (m.subscribers fd = none ∧ refused = none) ∧
        ∃ error, m.register refused fd event subscriber = (.error error, m)) ∨
      ((m.subscribers fd = none ∧ refused = none) ∧
        m.register refused fd event subscriber =
          (.ok, ⟨Function.update m.epoll fd (some event),
            Function.update m.subscribers fd (some subscriber)⟩)) := by
  cases hs : m.subscribers fd with
  | some old =>
    refine .inl ⟨nofun, .alreadyExists fd, ?_⟩
    rw [register, hs]
    rfl
  | none =>
    cases refused with
    | some e =>
      refine .inl ⟨nofun, .poll e, ?_⟩
      rw [register, hs]
      rfl
    | none =>
      refine .inr ⟨⟨rfl, rfl⟩, ?_⟩
      have hadd : m.epoll.ctl none .add fd event =
          .ok (Function.update m.epoll fd (some event)) := by
        simp only [Epoll.ctl, h.unregistered hs]
      rw [register, hs, hadd]
      rfl

theorem registerAll_agrees (h : m.Agrees) (refused : ℕ → Option IoError) (subscriber : S)
    (events : List EpollEvent) :
    (m.registerAll refused subscriber events).2.Agrees ∧
      ∀ fd, (m.subscribers fd).isSome = true →
        ((m.registerAll refused subscriber events).2.subscribers fd).isSome = true := by
  induction events generalizing m refused with
  | nil => exact ⟨h, fun _ hs => hs⟩
  | cons event rest ih =>
    rw [registerAll]
    rcases register_cases h (refused 0) (event.data.setWidth 32) event subscriber with
      ⟨-, error, hr⟩ | ⟨-, hr⟩
    · rw [hr]
      exact ⟨h, fun _ hs => hs⟩
    · rw [hr]
      obtain ⟨hagrees, hgrows⟩ :=
        ih (h.added (event.data.setWidth 32) event subscriber) fun k => refused (k + 1)
      refine ⟨hagrees, fun fd hs => hgrows fd ?_⟩
      by_cases heq : fd = event.data.setWidth 32
      · subst heq
        simp
      · simpa only [update_of_ne heq] using hs

theorem taken_added (first : EpollEvent) (subscriber : S) (before : List EpollEvent)
    (event : EpollEvent) :
    Taken ⟨Function.update m.epoll (first.data.setWidth 32) (some first),
        Function.update m.subscribers (first.data.setWidth 32) (some subscriber)⟩ before event ↔
      m.Taken (first :: before) event := by
  simp only [Taken, List.mem_cons, exists_eq_or_imp]
  by_cases heq : event.data.setWidth 32 = first.data.setWidth 32
  · simp [heq]
  · simp only [update_of_ne heq, Ne.symm heq, false_or]

/-- The loop fails exactly at an event that is refused or taken. -/
theorem registerAll_fails_iff (h : m.Agrees) (refused : ℕ → Option IoError) (subscriber : S)
    (events : List EpollEvent) :
    (∃ error, (m.registerAll refused subscriber events).1 = .error error) ↔
      ∃ before event after, events = before ++ event :: after ∧
        (refused before.length ≠ none ∨ m.Taken before event) := by
  induction events generalizing m refused with
  | nil =>
    constructor
    · rintro ⟨_, herror⟩
      cases herror
    · rintro ⟨before, _, _, hsplit, -⟩
      exact absurd hsplit.symm (List.append_ne_nil_of_right_ne_nil before (List.cons_ne_nil _ _))
  | cons first rest ih =>
    rw [registerAll]
    rcases register_cases h (refused 0) (first.data.setWidth 32) first subscriber with
      ⟨hnot, error, hr⟩ | ⟨hfree, hr⟩
    · rw [hr]
      refine ⟨fun _ => ⟨[], first, rest, rfl, ?_⟩, fun _ => ⟨error, rfl⟩⟩
      by_contra hclear
      rw [not_or, not_not, Taken, not_or, Option.not_isSome_iff_eq_none] at hclear
      exact hnot ⟨hclear.2.1, hclear.1⟩
    · rw [hr]
      simp only [ih (h.added (first.data.setWidth 32) first subscriber), taken_added]
      constructor
      · rintro ⟨before, event, after, rfl, hbad⟩
        exact ⟨first :: before, event, after, rfl, hbad⟩
      · rintro ⟨before, event, after, hsplit, hbad⟩
        cases before with
        | nil =>
          -- the first event is neither refused nor taken
          obtain ⟨rfl, rfl⟩ := List.cons.inj hsplit
          simp [Taken, hfree] at hbad
        | cons _ before =>
          obtain ⟨rfl, rfl⟩ := List.cons.inj hsplit
          exact ⟨before, event, after, rfl, hbad⟩

theorem addSubscriber_kept (h : m.Agrees) (refused : ℕ → Option IoError) (subscriber : S)
    (events : List EpollEvent) : m.Kept (.addSubscriber subscriber events, refused) ↔ ¬ m.Slips
    (.addSubscriber subscriber events, refused) := by
  obtain ⟨hagrees, -⟩ := registerAll_agrees h refused subscriber events
  have hkept : m.Kept (.addSubscriber subscriber events, refused) ↔
      ((∃ error, (m.registerAll refused subscriber events).1 = .error error) →
        (m.registerAll refused subscriber events).2 = m) := ⟨And.right, fun hk => ⟨hagrees, hk⟩⟩
  rw [hkept]
  cases events with
  | nil => exact ⟨fun _ => id, fun _ _ => rfl⟩
  | cons event rest =>
    rw [registerAll]
    rcases register_cases h (refused 0) (event.data.setWidth 32) event subscriber with
      ⟨hnot, error, hr⟩ | ⟨hfree, hr⟩
    · rw [hr]
      exact ⟨fun _ hslip => hnot hslip.1, fun _ _ => rfl⟩
    · -- once the first event is registered, a failure leaves it behind
      have hadded := h.added (event.data.setWidth 32) event subscriber
      rw [hr]
      simp only [registerAll_fails_iff hadded, taken_added]
      have hleft : (registerAll ⟨Function.update m.epoll (event.data.setWidth 32) (some event),
          Function.update m.subscribers (event.data.setWidth 32) (some subscriber)⟩
          (fun k => refused (k + 1)) subscriber rest).2 ≠ m := by
        intro heq
        obtain ⟨-, hgrows⟩ := registerAll_agrees hadded (fun k => refused (k + 1)) subscriber rest
        have hsome := hgrows (event.data.setWidth 32) (by simp)
        rw [heq, hfree.1] at hsome
        cases hsome
      exact ⟨fun hk hslip => hleft (hk hslip.2), fun hslip hfails => absurd ⟨hfree, hfails⟩ hslip⟩

theorem unregister_kept (h : m.Agrees) (refused : ℕ → Option IoError) (fd : Pollable) :
    m.Kept (.unregister fd, refused) ↔ ¬ m.Slips (.unregister fd, refused) := by
  show (m.unregister (refused 0) fd).2.Agrees ∧ ((∃ error, (m.unregister (refused 0) fd).1 =
    .error error) → (m.unregister (refused 0) fd).2 = m) ↔
    ¬ ((m.subscribers fd).isSome = true ∧ refused 0 ≠ none)
  cases hs : m.subscribers fd with
  | none =>
    have hun : m.unregister (refused 0) fd = (.error (.notFound fd), m) := by
      rw [unregister, hs]
    rw [hun]
    exact ⟨nofun, fun _ => ⟨h, fun _ => rfl⟩⟩
  | some old =>
    have hsome : (m.subscribers fd).isSome = true := by
      rw [hs]
      rfl
    obtain ⟨event, hevent⟩ := h.registered hsome
    cases hrefused : refused 0 with
    | none =>
      have hun : m.unregister none fd = (.ok, ⟨Function.update m.epoll fd none,
          Function.update m.subscribers fd none⟩) := by
        rw [unregister, hs]
        simp only [Epoll.ctl, hevent]
      rw [hun]
      exact ⟨nofun, fun _ => ⟨h.removed fd, nofun⟩⟩
    | some e =>
      have hun : m.unregister (some e) fd = (.error (.poll e), ⟨m.epoll,
          Function.update m.subscribers fd none⟩) := by
        rw [unregister, hs]
        rfl
      rw [hun]
      refine ⟨fun hk => ?_, fun hslip => absurd ⟨rfl, nofun⟩ hslip⟩
      have hsame := hk.1 fd
      simp [hevent] at hsame

theorem modify_kept (h : m.Agrees) (refused : ℕ → Option IoError) (fd : Pollable)
    (event : EpollEvent) : m.Kept (.modify fd event, refused) := by
  show (m.modify (refused 0) fd event).2.Agrees ∧ ((∃ error, (m.modify (refused 0) fd event).1 =
    .error error) → (m.modify (refused 0) fd event).2 = m)
  rw [modify]
  split_ifs with hs
  · obtain ⟨old, hold⟩ := h.registered hs
    cases refused 0 with
    | some e => exact ⟨h, fun _ => rfl⟩
    | none =>
      simp only [Epoll.ctl, hold]
      refine ⟨fun fd' => ?_, nofun⟩
      by_cases heq : fd' = fd
      · subst heq
        simpa using hs
      · simp only [update_of_ne heq]
        exact h fd'
  · exact ⟨h, fun _ => rfl⟩

theorem isPollable_kept (h : m.Agrees) (refused : ℕ → Option IoError) (fd : Pollable) :
    m.Kept (.isPollable fd, refused) ↔ ¬ m.Slips (.isPollable fd, refused) := by
  show (m.isPollable refused fd).2.Agrees ∧ ((∃ error, (m.isPollable refused fd).1 =
    .error error) → (m.isPollable refused fd).2 = m) ↔
    ¬ (m.epoll fd = none ∧ refused 0 = none ∧ refused 1 ≠ none)
  rw [isPollable]
  cases h0 : refused 0 with
  | some e => exact ⟨nofun, fun _ => ⟨h, nofun⟩⟩
  | none =>
    cases hfd : m.epoll fd with
    | some event =>
      simp only [Epoll.ctl, hfd]
      exact ⟨nofun, fun _ => ⟨h, nofun⟩⟩
    | none =>
      have hfree : (m.subscribers fd).isSome = false := (h fd).trans (by rw [hfd]; rfl)
      simp only [Epoll.ctl, hfd]
      cases h1 : refused 1 with
      | some e =>
        refine ⟨fun hk => ?_, fun hslip => absurd ⟨trivial, trivial, nofun⟩ hslip⟩
        have hsame := hk.1 fd
        simp [hfree] at hsame
      | none =>
        simp only [update_self, update_idem]
        refine ⟨nofun, fun _ => ⟨fun fd' => ?_, nofun⟩⟩
        by_cases heq : fd' = fd
        · subst heq
          simpa using hfree
        · simp only [update_of_ne heq]
          exact h fd'

theorem kept_iff (h : m.Agrees) (e : Call S × (ℕ → Option IoError)) : m.Kept e ↔ ¬ m.Slips e := by
  obtain ⟨call, refused⟩ := e
  cases call with
  | addSubscriber subscriber events => exact addSubscriber_kept h refused subscriber events
  | register fd event subscriber =>
    refine ⟨fun _ => id, fun _ => ?_⟩
    show (m.register (refused 0) fd event subscriber).2.Agrees ∧ ((∃ error,
      (m.register (refused 0) fd event subscriber).1 = .error error) →
      (m.register (refused 0) fd event subscriber).2 = m)
    rcases register_cases h (refused 0) fd event subscriber with ⟨-, error, hr⟩ | ⟨-, hr⟩
    · rw [hr]
      exact ⟨h, fun _ => rfl⟩
    · rw [hr]
      exact ⟨h.added fd event subscriber, nofun⟩
  | unregister fd => exact unregister_kept h refused fd
  | modify fd event => exact ⟨fun _ => id, fun _ => modify_kept h refused fd event⟩
  | isPollable fd => exact isPollable_kept h refused fd

theorem agrees_of_step {m' : EventManager S} {e : Call S × (ℕ → Option IoError)} (hk : m.Kept e)
    (hs : m.step e = some m') : m'.Agrees := by
  rw [step] at hs
  split at hs
  · cases hs
  · rename_i hcall
    cases hs
    have hagrees := hk.1
    rw [hcall] at hagrees
    exact hagrees

end Agrees

/-- In every sequence of calls, and for every outcome of the `epoll_ctl`s, the sets agree after each
call and a call that fails changes nothing, exactly if the host refuses no deletion and no
`add_subscriber` comes to an event that is refused or taken after one that it could register. -/
theorem sets_agree_iff (calls : List (Call S × (ℕ → Option IoError))) :
    Along step Kept new calls ↔ Along step (fun m e => ¬ m.Slips e) new calls :=
  along_congr (fun _ e h => kept_iff h e) (fun _ _ _ _ hk hs => agrees_of_step hk hs)
    (fun _ => rfl) calls

/-- The host refuses the `k`th `epoll_ctl` of a call. -/
def refuseAt (k : ℕ) : ℕ → Option IoError := fun i => if i = k then some (.other 9) else none

def subscribed : EventManager Unit := (new.call (fun _ => none) (.register 5 ⟨1, 5⟩ ())).2

/-- A refused deletion leaves a registration without a subscriber, in `unregister` and in
`is_pollable`, and an `add_subscriber` that fails at its second event leaves the first one. -/
theorem sets_disagree :
    (¬ subscribed.Kept (.unregister 5, refuseAt 0) ∧
      (subscribed.call (refuseAt 0) (.unregister 5)).1 = .error (.poll (.other 9)) ∧
      (subscribed.call (refuseAt 0) (.unregister 5)).2.subscribers 5 = none ∧
      (subscribed.call (refuseAt 0) (.unregister 5)).2.epoll 5 = some ⟨1, 5⟩) ∧
    (¬ (new : EventManager Unit).Kept (.isPollable 5, refuseAt 1) ∧
      ((new : EventManager Unit).call (refuseAt 1) (.isPollable 5)).1 = .panicked ∧
      ((new : EventManager Unit).call (refuseAt 1) (.isPollable 5)).2.subscribers 5 = none ∧
      ((new : EventManager Unit).call (refuseAt 1) (.isPollable 5)).2.epoll 5 = some ⟨0, 0⟩) ∧
    (¬ new.Kept (.addSubscriber () [⟨1, 5⟩, ⟨1, 6⟩], refuseAt 1) ∧
      (new.call (refuseAt 1) (.addSubscriber () [⟨1, 5⟩, ⟨1, 6⟩])).1 =
        .error (.poll (.other 9)) ∧
      (new.call (refuseAt 1) (.addSubscriber () [⟨1, 5⟩, ⟨1, 6⟩])).2.subscribers 5 = some () ∧
      (new.call (refuseAt 1) (.addSubscriber () [⟨1, 5⟩, ⟨1, 6⟩])).2.epoll 5 = some ⟨1, 5⟩) := by
  refine ⟨⟨fun hk => ?_, by decide, by decide, by decide⟩,
    ⟨fun hk => ?_, by decide, by decide, by decide⟩,
    ⟨fun hk => ?_, by decide, by decide, by decide⟩⟩
  · exact absurd (hk.1 5) (by decide)
  · exact absurd (hk.1 5) (by decide)
  · have hsame := hk.2 ⟨.poll (.other 9), by decide⟩
    exact absurd (congrArg (fun m => m.subscribers 5) hsame) (by decide)

end EventManager

end Shelter.Polly
