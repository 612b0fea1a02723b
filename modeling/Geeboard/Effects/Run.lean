/-
This file gives a program its meaning when it runs alone.

A machine answers calls: it says what a call does to the world and what the
caller gets back, for every way the call can turn out. A run is then fixed by
the world it starts in and by one outcome for each site, so "for every point at
which a step fails" is a quantifier over functions from sites to outcomes, and
several failures in one run are nothing special.

The two facts used throughout are that a run of a sequence is the run of its
parts, and that a property of the world that every call keeps, or every call of
a kind the program restricts itself to, is kept by the whole run.
-/

import Geeboard.Effects.Program

namespace Effects

/-- A machine: a world, the ways a call can turn out, the parties that call, and what
answering a call does. -/
structure Machine (interface : Interface) where
  World : Type
  Outcome : Type
  Actor : Type
  answer : Actor → Outcome → (call : interface.Call) → World → interface.Answer call × World

namespace Program

variable {interface : Interface} {First Second : Type}

/-- The run of a program by `actor` from `world`, with an outcome for every site. -/
def run (machine : Machine interface) (actor : machine.Actor)
    (faults : interface.Site → machine.Outcome) :
    Program interface First → machine.World → First × machine.World
  | stop result, world => (result, world)
  | ask site call next, world =>
    run machine actor faults (next (machine.answer actor (faults site) call world).1)
      (machine.answer actor (faults site) call world).2

section Run

variable (machine : Machine interface) (actor : machine.Actor)
  (faults : interface.Site → machine.Outcome)

@[simp] theorem run_stop (result : First) (world : machine.World) :
    run machine actor faults (stop result) world = (result, world) := rfl

@[simp] theorem run_ask (site : interface.Site) (call : interface.Call)
    (next : interface.Answer call → Program interface First) (world : machine.World) :
    run machine actor faults (ask site call next) world =
      run machine actor faults (next (machine.answer actor (faults site) call world).1)
        (machine.answer actor (faults site) call world).2 := rfl

@[simp] theorem run_bind (program : Program interface First)
    (rest : First → Program interface Second) (world : machine.World) :
    run machine actor faults (program.bind rest) world =
      run machine actor faults (rest (run machine actor faults program world).1)
        (run machine actor faults program world).2 := by
  induction program generalizing world with
  | stop result => rfl
  | ask site call next inductionHypothesis => exact inductionHypothesis _ _

@[simp] theorem run_within (label : interface.Label) (program : Program interface First)
    (world : machine.World) :
    run machine actor faults (within label program) world =
      run machine actor (fun site => faults (label :: site)) program world := by
  induction program generalizing world with
  | stop result => rfl
  | ask site call next inductionHypothesis => exact inductionHypothesis _ _

end Run

/-! ### Programs that restrict themselves to some calls -/

/-- Every call the program can make, whatever the answers were, is one of the allowed ones. -/
def Uses (allowed : interface.Call → Prop) : Program interface First → Prop
  | stop _ => True
  | ask _ call next => allowed call ∧ ∀ answer, Uses allowed (next answer)

section Uses

variable {allowed wider : interface.Call → Prop}

variable {code : Code interface Locals First}

variable {program : Program interface First}

theorem uses_bind {rest : First → Program interface Second} (first : Uses allowed program)
    (second : ∀ result, Uses allowed (rest result)) : Uses allowed (program.bind rest) := by
  induction program with
  | stop result => exact second result
  | ask site call next inductionHypothesis =>
    exact ⟨first.1, fun answer => inductionHypothesis answer (first.2 answer)⟩

theorem uses_within (label : interface.Label) (uses : Uses allowed program) :
    Uses allowed (within label program) := by
  induction program with
  | stop result => trivial
  | ask site call next inductionHypothesis =>
    exact ⟨uses.1, fun answer => inductionHypothesis answer (uses.2 answer)⟩

theorem uses_mono (weaker : ∀ call, allowed call → wider call) (uses : Uses allowed program) :
    Uses wider program := by
  induction program with
  | stop result => trivial
  | ask site call next inductionHypothesis =>
    exact ⟨weaker call uses.1, fun answer => inductionHypothesis answer (uses.2 answer)⟩

theorem uses_anything (program : Program interface First) : Uses (fun _ => True) program := by
  induction program with
  | stop result => trivial
  | ask site call next inductionHypothesis => exact ⟨trivial, inductionHypothesis⟩

/-- A property of the world that the allowed calls keep is kept by a run that makes no other
calls. -/
theorem run_preserves (machine : Machine interface) (actor : machine.Actor)
    (faults : interface.Site → machine.Outcome) (holds : machine.World → Prop)
    (kept : ∀ outcome call world, allowed call → holds world →
      holds (machine.answer actor outcome call world).2) (uses : Uses allowed program)
    {world : machine.World} (before : holds world) :
    holds (run machine actor faults program world).2 := by
  induction program generalizing world with
  | stop result => exact before
  | ask site call next inductionHypothesis =>
    exact inductionHypothesis _ (uses.2 _) (kept _ _ _ uses.1 before)

end Uses

/-! ### Every point of a run -/

/-- What the run sees on its way: `fits` holds of every world a call is made in, together with
that call, and of the world the run ends in. -/
def Along (machine : Machine interface) (actor : machine.Actor)
    (faults : interface.Site → machine.Outcome)
    (fits : machine.World → Option interface.Call → Prop) :
    Program interface First → machine.World → Prop
  | stop _, world => fits world none
  | ask site call next, world =>
    fits world (some call) ∧
      Along machine actor faults fits (next (machine.answer actor (faults site) call world).1)
        (machine.answer actor (faults site) call world).2

/-- The world after at most `count` calls of the run: where it stands when its party is killed
there. -/
def killedAfter (machine : Machine interface) (actor : machine.Actor)
    (faults : interface.Site → machine.Outcome) :
    Nat → Program interface First → machine.World → machine.World
  | 0, _, world => world
  | _ + 1, stop _, world => world
  | count + 1, ask site call next, world =>
    killedAfter machine actor faults count
      (next (machine.answer actor (faults site) call world).1)
      (machine.answer actor (faults site) call world).2

section Along

variable {machine : Machine interface} {actor : machine.Actor}
  {faults : interface.Site → machine.Outcome}
  {fits : machine.World → Option interface.Call → Prop}

theorem along_end {program : Program interface First} {world : machine.World}
    (along : Along machine actor faults fits program world) :
    fits (run machine actor faults program world).2 none := by
  induction program generalizing world with
  | stop result => exact along
  | ask site call next inductionHypothesis => exact inductionHypothesis _ along.2

theorem along_bind {program : Program interface First}
    {rest : First → Program interface Second} {world : machine.World}
    (first : Along machine actor faults fits program world)
    (second : Along machine actor faults fits
      (rest (run machine actor faults program world).1)
      (run machine actor faults program world).2) :
    Along machine actor faults fits (program.bind rest) world := by
  induction program generalizing world with
  | stop result => exact second
  | ask site call next inductionHypothesis =>
    exact ⟨first.1, inductionHypothesis _ first.2 second⟩

theorem along_within (label : interface.Label) {program : Program interface First}
    {world : machine.World}
    (along : Along machine actor (fun site => faults (label :: site)) fits program world) :
    Along machine actor faults fits (within label program) world := by
  induction program generalizing world with
  | stop result => exact along
  | ask site call next inductionHypothesis =>
    exact ⟨along.1, inductionHypothesis _ along.2⟩

/-- A property of every world of a run is a property of the world it is killed in. -/
theorem killedAfter_holds {holds : machine.World → Prop} (count : Nat)
    {program : Program interface First} {world : machine.World}
    (along : Along machine actor faults (fun world _ => holds world) program world) :
    holds (killedAfter machine actor faults count program world) := by
  induction count generalizing program world with
  | zero =>
    cases program with
    | stop result => exact along
    | ask site call next => exact along.1
  | succ count inductionHypothesis =>
    cases program with
    | stop result => exact along
    | ask site call next => exact inductionHypothesis along.2

end Along

end Program

/-! ### The same for code -/

namespace Code

variable {interface : Interface} {Locals Inner First Second : Type}

/-- The run of a piece of code: how it ended, its variables then, and the world. -/
def run (machine : Machine interface) (actor : machine.Actor)
    (faults : interface.Site → machine.Outcome) (code : Code interface Locals First)
    (locals : Locals) (world : machine.World) :
    (Except interface.Failure First × Locals) × machine.World :=
  (code locals).run machine actor faults world

section Run

variable (machine : Machine interface) (actor : machine.Actor)
  (faults : interface.Site → machine.Outcome)

@[simp] theorem run_pure (result : First) (locals : Locals) (world : machine.World) :
    (pure result : Code interface Locals First).run machine actor faults locals world =
      ((.ok result, locals), world) := rfl

@[simp] theorem run_throw (failure : interface.Failure) (locals : Locals)
    (world : machine.World) :
    (throw failure : Code interface Locals First).run machine actor faults locals world =
      ((.error failure, locals), world) := rfl

@[simp] theorem run_call (label : interface.Label) (request : interface.Call)
    (locals : Locals) (world : machine.World) :
    (call label request : Code interface Locals _).run machine actor faults locals world =
      (((machine.answer actor (faults [label]) request world).1, locals),
        (machine.answer actor (faults [label]) request world).2) := rfl

@[simp] theorem run_read (locals : Locals) (world : machine.World) :
    (read : Code interface Locals Locals).run machine actor faults locals world =
      ((.ok locals, locals), world) := rfl

@[simp] theorem run_assign (change : Locals → Locals) (locals : Locals)
    (world : machine.World) :
    (assign change : Code interface Locals Unit).run machine actor faults locals world =
      ((.ok (), change locals), world) := rfl

@[simp] theorem run_step (label : interface.Label) (code : Code interface Locals First)
    (locals : Locals) (world : machine.World) :
    (step label code).run machine actor faults locals world =
      code.run machine actor (fun site => faults (label :: site)) locals world := by
  simp [run]

@[simp] theorem run_attempt (code : Code interface Locals First) (locals : Locals)
    (world : machine.World) :
    code.attempt.run machine actor faults locals world =
      ((.ok (code.run machine actor faults locals world).1.1,
        (code.run machine actor faults locals world).1.2),
        (code.run machine actor faults locals world).2) := by
  simp [run]

@[simp] theorem run_fresh (inner : Inner) (code : Code interface Inner First)
    (locals : Locals) (world : machine.World) :
    (fresh inner code : Code interface Locals First).run machine actor faults locals world =
      (((code.run machine actor faults inner world).1.1, locals),
        (code.run machine actor faults inner world).2) := by
  simp [run]

theorem run_bind (code : Code interface Locals First)
    (rest : First → Code interface Locals Second) (locals : Locals) (world : machine.World) :
    (code >>= rest).run machine actor faults locals world =
      match code.run machine actor faults locals world with
      | ((.ok result, after), later) => (rest result).run machine actor faults after later
      | ((.error failure, after), later) => ((.error failure, after), later) := by
  simp only [run, bind_apply, Program.run_bind]
  rcases (code locals).run machine actor faults world with ⟨⟨result | failure, after⟩, later⟩
  · rfl
  · rfl

variable {machine actor faults}

/-- Code that ended with a result is followed by the rest. -/
theorem run_bind_ok {code : Code interface Locals First}
    {rest : First → Code interface Locals Second} {locals after : Locals}
    {world later : machine.World} {result : First}
    (ended : code.run machine actor faults locals world = ((.ok result, after), later)) :
    (code >>= rest).run machine actor faults locals world =
      (rest result).run machine actor faults after later := by
  rw [run_bind, ended]

/-- Code that threw a failure is where the sequence ends. -/
theorem run_bind_error {code : Code interface Locals First}
    {rest : First → Code interface Locals Second} {locals after : Locals}
    {world later : machine.World} {failure : interface.Failure}
    (ended : code.run machine actor faults locals world = ((.error failure, after), later)) :
    (code >>= rest).run machine actor faults locals world =
      ((.error failure, after), later) := by
  rw [run_bind, ended]

theorem run_succeeded (code : Code interface Locals First) (locals : Locals)
    (world : machine.World) :
    code.succeeded.run machine actor faults locals world =
      ((.ok (code.run machine actor faults locals world).1.1.isOk,
        (code.run machine actor faults locals world).1.2),
        (code.run machine actor faults locals world).2) := by
  unfold succeeded
  rw [run_bind, run_attempt]
  rcases (code.run machine actor faults locals world).1.1 with failure | result
  · rfl
  · rfl

/-- What a sequence sees is what its first part sees and, when that ended with a result, what
the rest sees from there. -/
theorem along_bind {fits : machine.World → Option interface.Call → Prop}
    {code : Code interface Locals First} {rest : First → Code interface Locals Second}
    {locals : Locals} {world : machine.World}
    (first : Program.Along machine actor faults fits (code locals) world)
    (second : ∀ result after later,
      code.run machine actor faults locals world = ((.ok result, after), later) →
      Program.Along machine actor faults fits (rest result after) later) :
    Program.Along machine actor faults fits ((code >>= rest) locals) world := by
  refine Program.along_bind first ?_
  have last := Program.along_end first
  rcases ended : (code locals).run machine actor faults world with
    ⟨⟨failure | result, after⟩, later⟩
  · rw [ended] at last
    exact last
  · exact second result after later ended

end Run

variable {allowed : interface.Call → Prop}

/-- Code that makes allowed calls only, from any values of its variables. -/
def Uses (allowed : interface.Call → Prop) (code : Code interface Locals First) : Prop :=
  ∀ locals, (code locals).Uses allowed

theorem uses_pure (result : First) :
    Uses allowed (pure result : Code interface Locals First) := fun _ => trivial

theorem uses_bind {rest : First → Code interface Locals Second} (first : Uses allowed code)
    (second : ∀ result, Uses allowed (rest result)) : Uses allowed (code >>= rest) := by
  intro locals
  refine Program.uses_bind (first locals) ?_
  rintro ⟨result | failure, after⟩
  · trivial
  · exact second _ after

theorem uses_call (label : interface.Label) {request : interface.Call}
    (permitted : allowed request) :
    Uses allowed (call label request : Code interface Locals _) :=
  fun _ => ⟨permitted, fun _ => trivial⟩

theorem uses_throw (failure : interface.Failure) :
    Uses allowed (throw failure : Code interface Locals First) := fun _ => trivial

theorem uses_settled (outcome : Except interface.Failure First) :
    Uses allowed (settled outcome : Code interface Locals First) := by
  cases outcome with
  | error failure => exact uses_throw failure
  | ok result => exact uses_pure result

theorem uses_attempt (uses : Uses allowed code) :
    Uses allowed code.attempt := fun locals => Program.uses_bind (uses locals) fun _ => trivial

theorem uses_read : Uses allowed (read : Code interface Locals Locals) :=
  fun _ => trivial

theorem uses_assign (change : Locals → Locals) :
    Uses allowed (assign change : Code interface Locals Unit) := fun _ => trivial

theorem uses_fresh (inner : Inner) {code : Code interface Inner First}
    (uses : Uses allowed code) :
    Uses allowed (fresh inner code : Code interface Locals First) :=
  fun _ => Program.uses_bind (uses inner) fun _ => trivial

theorem uses_step (label : interface.Label) (uses : Uses allowed code) :
    Uses allowed (step label code) :=
  fun locals => Program.uses_within label (uses locals)

theorem uses_whenever (condition : Bool) {code : Code interface Locals Unit}
    (uses : Uses allowed code) : Uses allowed (whenever condition code) := by
  cases condition with
  | false => exact uses_pure ()
  | true => exact uses

theorem uses_succeeded (uses : Uses allowed code) :
    Uses allowed code.succeeded := by
  refine uses_bind (uses_attempt uses) fun outcome => ?_
  cases outcome with
  | error failure => exact uses_pure false
  | ok result => exact uses_pure true

theorem uses_finally {last : Code interface Locals Unit} (first : Uses allowed code)
    (second : Uses allowed last) :
    Uses allowed (code.finally_ last) :=
  uses_bind (uses_attempt first) fun outcome =>
    uses_bind second fun _ => uses_settled outcome

end Code

end Effects
