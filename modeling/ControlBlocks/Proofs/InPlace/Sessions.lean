import ControlBlocks.Proofs.Calls.Basic
import ControlBlocks.Proofs.InPlace.Library

/-!
# Sessions

A component at work is asked for evaluations, is given memories and is reset, while its clock moves.

* `Clock.Move`, `Request`, `Reply` — what can be asked, and what comes back;
* `Running.session` — any number of requests to a component;
* `Component.session` — the same to one that works by a procedure, on one memory that it keeps;
* `Component.session_eq` — nothing tells the two apart;
* `Design.reset_eq_rebuild` — after a reset the component is the one that is built anew;
* `Component.calls?` — the calls that evaluations on a clock make;
* `Design.session_of_gives` — on a clock, a component says what its block gives at these calls.
-/

set_option autoImplicit false

namespace ControlBlocks

/-! ## Requests -/

/-- A look at a clock, or a change of it. -/
inductive Clock.Move (α : Type) where
  | look
  | advance (dt : Option α)
  | reset (start : Option α)
  | setMode (mode : ClockMode) (start : Option α)
  | setStep (step : Option α)
  | restore (patch : Patch α)

/-- What is asked of a component at work, or done to its clock. -/
inductive Request (α : Type) where
  /-- An evaluation. -/
  | compute (d : Datum α)
  /-- Another memory. -/
  | load (d : Datum α)
  | reset
  | move (m : Clock.Move α)

/-- What comes back. -/
inductive Reply (α : Type) where
  | answer (y : Answer α)
  | fault (e : Fault α)
  /-- The data are no input, or no memory, of the component. -/
  | unread
  | done

variable {α : Type}

/-- The clock after a move. -/
def Clock.after [Scalar α] (wall : α) (c : Clock α) : Move α → Except (Fault α) (Clock α)
  | .look => .ok (c.look wall)
  | .advance dt => c.advance wall dt
  | .reset start => .ok (c.reset wall start)
  | .setMode mode start => .ok (c.setMode wall mode start)
  | .setStep step => .ok (c.setStep step)
  | .restore patch => .ok (c.apply patch)

/-- What is said to an evaluation. -/
def Reply.ofOutcome : Except (Fault α) (Answer α) → Reply α
  | .ok y => .answer y
  | .error e => .fault e

/-! ## Sessions -/

namespace Component.Running

variable [Scalar α]

/-- One request at a time of day. -/
def answer (wall : α) (q : Request α) (r : Running α) (clock : Clock α) :
    Reply α × Running α × Clock α :=
  match q with
  | .compute d =>
    match r.compute? wall clock d with
    | none => (.unread, r, clock)
    | some (y, r, clock) => (.ofOutcome y, r, clock)
  | .load d =>
    match r.load? d with
    | none => (.unread, r, clock)
    | some r => (.done, r, clock)
  | .reset => (.done, r.reset wall clock)
  | .move m =>
    match clock.after wall m with
    | .ok clock => (.done, r, clock)
    | .error e => (.fault e, r, clock)

/-- Requests one after another, each at its time of day: what came back, the memory and the clock
after each, and what the component and the clock have come to. -/
def session : List (α × Request α) → Running α × Clock α →
    List (Reply α × Datum α × Clock α) × Running α × Clock α
  | [], x => ([], x)
  | (wall, q) :: rest, x =>
    let (reply, r, clock) := answer wall q x.1 x.2
    let (replies, last) := session rest (r, clock)
    ((reply, r.saved, clock) :: replies, last)

end Component.Running

namespace Component

section Session

variable [Scalar α] (c : Component α) (p : Procedure α c.Input c.State c.Output) (attached : Bool)

/-- One request to a component that works by a procedure. -/
def answer (wall : α) (q : Request α) (s : c.State) (clock : Clock α) :
    Reply α × c.State × Clock α :=
  match q with
  | .compute d =>
    match c.readInput.ofDatum? d with
    | none => (.unread, s, clock)
    | some u =>
      let (y, s, clock) := c.perform p attached wall clock s u
      (.ofOutcome (y.map fun y => ⟨c.writeOutput.toDatum y, c.block.warnings y⟩), s, clock)
  | .load d =>
    match c.regain? d with
    | none => (.unread, s, clock)
    | some s => (.done, s, clock)
  | .reset => (.done, c.restart p attached wall clock s)
  | .move m =>
    match clock.after wall m with
    | .ok clock => (.done, s, clock)
    | .error e => (.fault e, s, clock)

/-- Requests to a component that works by a procedure. -/
def session : List (α × Request α) → c.State × Clock α →
    List (Reply α × Datum α × Clock α) × c.State × Clock α
  | [], x => ([], x)
  | (wall, q) :: rest, x =>
    let (reply, s, clock) := c.answer p attached wall q x.1 x.2
    let (replies, last) := session rest (s, clock)
    ((reply, c.keep s, clock) :: replies, last)

variable {p}

/-- A request is answered alike. -/
theorem answer_eq (h : p.Carries c.block) (wall : α) (q : Request α) (s : c.State)
    (clock : Clock α) :
    Running.answer wall q ⟨c, attached, s⟩ clock =
      ((c.answer p attached wall q s clock).1,
        c.resume attached (c.answer p attached wall q s clock).2) := by
  cases q with
  | compute d =>
    simp only [Running.answer, answer, Running.compute?]
    cases c.readInput.ofDatum? d with
    | none => rfl
    | some u =>
      simp only [c.evaluate_eq_perform attached h]
  | load d =>
    simp only [Running.answer, answer, Running.load?]
    cases c.regain? d with
    | none => rfl
    | some s => rfl
  | reset =>
    simp only [Running.answer, answer, c.restart_eq_startOn attached h]
    rfl
  | move m =>
    simp only [Running.answer, answer]
    cases clock.after wall m with
    | ok clock => rfl
    | error e => rfl

/-- **Nothing tells the two apart**: whatever is asked, both say the same, are kept as the same data
and come to the same memory and clock. -/
theorem session_eq (h : p.Carries c.block) (requests : List (α × Request α))
    (x : c.State × Clock α) :
    Running.session requests (c.resume attached x) =
      ((c.session p attached requests x).1,
        c.resume attached (c.session p attached requests x).2) := by
  induction requests generalizing x with
  | nil => rfl
  | cons request rest ih =>
    obtain ⟨wall, q⟩ := request
    have first := c.answer_eq attached h wall q x.1 x.2
    have later := ih (c.answer p attached wall q x.1 x.2).2
    dsimp only [Running.session, session, resume] at first later ⊢
    rw [first]
    dsimp only
    rw [later]
    rfl

end Session

end Component

/-! ## Building anew -/

namespace Design

open Component (Running)

variable [Elementary α]

/-- The component of a design as it starts on a clock, and the clock after that. -/
def build (d : Design α) (attached : Bool) (wall : α) (clock : Clock α) :
    Except (Fault α) (Running α × Clock α) :=
  d.component.map fun c => Running.start c attached wall clock

/-- **A reset is as good as building anew.**  Whatever was asked of a component since it was built,
and however its clock moved, a reset in place leaves what is built from the same parameters on the
same clock, and from there on both say the same. -/
theorem reset_eq_rebuild {d : Design α} {c : Component α} (h : d.component = .ok c)
    (attached : Bool) (wall : α) (clock : Clock α) (before : List (α × Request α)) :
    ∃ (p : Procedure α c.Input c.State c.Output) (s : c.State) (clock' : Clock α),
      c.block.InPlace p ∧
      (c.session p attached before (c.block.startOn attached wall clock)).2 = (s, clock') ∧
      Running.session before (Running.start c attached wall clock) =
        ((c.session p attached before (c.block.startOn attached wall clock)).1,
          ⟨c, attached, s⟩, clock') ∧
      ∀ wall', ∃ rebuilt,
        d.build attached wall' clock' = .ok rebuilt ∧
        c.resume attached (c.restart p attached wall' clock' s) = rebuilt ∧
        ∀ later,
          (c.session p attached later (c.restart p attached wall' clock' s)).1 =
            (Running.session later rebuilt).1 := by
  obtain ⟨p, hp⟩ := exists_inPlace h
  have course := c.session_eq attached hp.carries before (c.block.startOn attached wall clock)
  obtain ⟨⟨s, clock'⟩, hlast⟩ : ∃ last,
      (c.session p attached before (c.block.startOn attached wall clock)).2 = last := ⟨_, rfl⟩
  rw [hlast] at course
  refine ⟨p, s, clock', hp, hlast, course, fun wall' => ?_⟩
  have restarted := c.restart_eq_startOn attached hp.carries wall' clock' s
  refine ⟨c.resume attached (c.block.startOn attached wall' clock'), ?_, ?_, fun later => ?_⟩
  · rw [build, h]
    rfl
  · rw [restarted]
  · rw [restarted, c.session_eq attached hp.carries later]

/-- Two stages, held for five seconds after each change. -/
def heldStages : Stage.Settings Float := ⟨2, 5, 0, 0⟩

/-- A stage is raised twenty seconds after its start and reset at once: it is back at its first
stage, and held from then on. -/
theorem reset_eq_rebuild_stage :
    ∃ p, (Stage.ofSettings heldStages).InPlace p ∧
      (Component.session ⟨Stage.ofSettings heldStages⟩ p true
        [(0, .move (.advance (some 20))), (0, .compute (.real 1))]
        ((Stage.ofSettings heldStages).startOn true 0 ⟨.simulation, 0, none⟩)).2 =
          (⟨2, some (20 + 5)⟩, ⟨.simulation, 20, none⟩) ∧
      Component.restart ⟨Stage.ofSettings heldStages⟩ p true 0 ⟨.simulation, 20, none⟩
          ⟨2, some (20 + 5)⟩ =
        (⟨0, some (20 + 5)⟩, ⟨.simulation, 20, none⟩) := by
  obtain ⟨p, s, clock', hp, hsession, hmodel, hreset⟩ :=
    reset_eq_rebuild (d := .stage ⟨2, 5, some 0, 0⟩) (c := ⟨Stage.ofSettings heldStages⟩) rfl
      true 0 ⟨.simulation, 0, none⟩ [(0, .move (.advance (some 20))), (0, .compute (.real 1))]
  have raised : (Running.session
      [((0 : Float), .move (.advance (some 20))), (0, .compute (.real 1))]
      (Running.start ⟨Stage.ofSettings heldStages⟩ true 0 ⟨.simulation, 0, none⟩)).2 =
      Component.resume ⟨Stage.ofSettings heldStages⟩ true
        (⟨2, some (20 + 5)⟩, ⟨.simulation, 20, none⟩) := by
    with_unfolding_all rfl
  rw [hmodel] at raised
  obtain ⟨rfl, rfl⟩ := Prod.mk.inj ((Component.resume_inj _ _).1 raised)
  obtain ⟨rebuilt, hbuilt, hrestart, -⟩ := hreset 0
  refine ⟨p, hp, hsession, ?_⟩
  have anew : rebuilt = Component.resume ⟨Stage.ofSettings heldStages⟩ true
      (⟨0, some (20 + 5)⟩, ⟨.simulation, 20, none⟩) := by
    cases hbuilt
    with_unfolding_all rfl
  exact (Component.resume_inj _ _).1 (hrestart.trans anew)

end Design

/-! ## Calls on a clock -/

namespace Block

variable {ι σ ο : Type} {b : Block α ι σ ο}

/-- On a clock, an evaluation is a call at the time that the clock shows. -/
theorem evalOn_attached (hlook : b.clockUse ≠ .never) (wall : α) (clock : Clock α) (s : σ) (u : ι) :
    b.evalOn true wall clock s u = (b.call ⟨(clock.look wall).time, u⟩ s, clock.look wall) := by
  simp [evalOn, seen, call, hlook]

/-- On a clock, a block of the library starts as at the time that the clock shows, whether it looks
at it then or not. -/
theorem InPlace.startOn_attached [Elementary α] {p : Procedure α ι σ ο} (h : b.InPlace p) (wall : α)
    (clock : Clock α) : (b.startOn true wall clock).1 = b.start (some (clock.look wall).time) := by
  by_cases hlook : b.clockUse = .always
  · simp [startOn, seen, hlook]
  · have blind : b.start (some (clock.look wall).time) = b.start none := by
      cases h with
      | memoryless => rfl
      | stage => exact absurd rfl hlook
      | _ => rfl
    simp [startOn, seen, hlook, blind]

end Block

/-- What an evaluation has given. -/
def Reply.answer? : Reply α → Option (Answer α)
  | .answer y => some y
  | .fault _ | .unread | .done => none

namespace Component

variable [Scalar α] {c : Component α}

/-- What the component says of an output. -/
def say (c : Component α) (y : c.Output) : Answer α := ⟨c.writeOutput.toDatum y, c.block.warnings y⟩

/-- The calls that requests make: one for each evaluation, at the time that the clock then shows.
There are none of data that are no input, and none of requests for another memory. -/
def calls? (c : Component α) : Clock α → List (α × Request α) → Option (List (Call α c.Input))
  | _, [] => some []
  | clock, (wall, q) :: rest =>
    match q with
    | .compute d => do
      let u ← c.readInput.ofDatum? d
      let later ← c.calls? (clock.look wall) rest
      return ⟨(clock.look wall).time, u⟩ :: later
    | .move m => c.calls? ((clock.after wall m).toOption.getD clock) rest
    | .load _ | .reset => none

/-- A simulation clock that is advanced by its step between two evaluations. -/
example : Component.calls? ⟨Block.timed "Timer" (Timer.initial 1) (Timer.step (1 : Rat))⟩
    ⟨.simulation, 0, some 2⟩
    [(0, .compute (.bool true)), (0, .move (.advance none)), (0, .compute (.bool false))] =
    some [⟨0, true⟩, ⟨2, false⟩] := by
  cbv

section Runs

variable {wall : α} {clock : Clock α} {s s' last : c.State} {u : c.Input} {y : c.Output}
  {d : Datum α}

theorem answer_of_call (hlook : c.block.clockUse ≠ .never) (hu : c.readInput.ofDatum? d = some u)
    (hcall : c.block.call ⟨(clock.look wall).time, u⟩ s = .ok (y, s')) :
    Running.answer wall (.compute d) ⟨c, true, s⟩ clock =
      (.answer (c.say y), ⟨c, true, s'⟩, clock.look wall) := by
  simp only [Running.answer, Running.compute?, hu, Running.evaluate,
    Block.evalOn_attached hlook, hcall]
  rfl

/-- A move of the clock says nothing of the component. -/
theorem exists_answer_move (wall : α) (clock : Clock α) (m : Clock.Move α) (r : Running α) :
    ∃ reply, reply.answer? = none ∧
      Running.answer wall (.move m) r clock =
        (reply, r, (clock.after wall m).toOption.getD clock) := by
  cases hmoved : clock.after wall m with
  | ok clock' => exact ⟨.done, rfl, by simp [Running.answer, hmoved, Except.toOption]⟩
  | error e => exact ⟨.fault e, rfl, by simp [Running.answer, hmoved, Except.toOption]⟩

/-- On a clock, a component answers as a run of its block, and comes to the memory of it. -/
theorem session_of_runs (hlook : c.block.clockUse ≠ .never) {requests : List (α × Request α)}
    {calls : List (Call α c.Input)} {ys : List c.Output}
    (hcalls : c.calls? clock requests = some calls) (run : c.block.Runs s calls ys last) :
    ((Running.session requests (⟨c, true, s⟩, clock)).1.filterMap fun reply => reply.1.answer?) =
        ys.map c.say ∧
      (Running.session requests (⟨c, true, s⟩, clock)).2.1 = ⟨c, true, last⟩ := by
  induction requests generalizing clock calls s ys with
  | nil =>
    cases hcalls
    cases run
    exact ⟨rfl, rfl⟩
  | cons request rest ih =>
    obtain ⟨wall, q⟩ := request
    cases q with
    | compute d =>
      obtain ⟨u, hu, later, hlater, rfl⟩ : ∃ u, c.readInput.ofDatum? d = some u ∧
          ∃ later, c.calls? (clock.look wall) rest = some later ∧
            ⟨(clock.look wall).time, u⟩ :: later = calls := by
        simpa [calls?, Option.bind_eq_some_iff] using hcalls
      cases run with
      | cons first further =>
        obtain ⟨said, memory⟩ := ih hlater further
        simp only [Running.session, answer_of_call hlook hu first]
        exact ⟨congrArg (List.cons _) said, memory⟩
    | move m =>
      obtain ⟨reply, silent, moved⟩ := exists_answer_move wall clock m ⟨c, true, s⟩
      obtain ⟨said, memory⟩ := ih hcalls run
      simp only [Running.session, moved, List.filterMap_cons, silent]
      exact ⟨said, memory⟩
    | load d => cases hcalls
    | reset => cases hcalls

end Runs

end Component

namespace Design

open Component (Running)

/-- **On a clock, a component of the library says what its block gives.**  Its evaluations are calls
at the times that the clock shows, and it was started at the time that the clock showed then. -/
theorem session_of_gives [Elementary α] {d : Design α} {c : Component α}
    (h : d.component = .ok c) (hlook : c.block.clockUse ≠ .never) (wall : α) (clock : Clock α)
    {requests : List (α × Request α)} {calls : List (Call α c.Input)} {ys : List c.Output}
    (hcalls : c.calls? (Running.start c true wall clock).2 requests = some calls)
    (gives : c.block.Gives (some (clock.look wall).time) calls ys) :
    ((Running.session requests (Running.start c true wall clock)).1.filterMap
      fun reply => reply.1.answer?) = ys.map c.say := by
  obtain ⟨p, hp⟩ := exists_inPlace h
  obtain ⟨last, run⟩ := gives
  rw [← hp.startOn_attached] at run
  exact (Component.session_of_runs hlook hcalls run).1

end Design

end ControlBlocks
