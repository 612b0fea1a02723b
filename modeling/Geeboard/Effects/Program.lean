/-
This file is the language the platform's operations are written in.

An operation is a sequence of awaited calls with ordinary control flow between
them. It is kept as a *program*: a finished result, or a call that is waiting
for its answer together with what is done with that answer. An answer is either
the call's reply or a failure, so a program says what happens at every point at
which one of its calls fails, and nothing about it depends on what the calls
mean. The meaning is given afterwards, once for a program that runs alone and
once for programs that take turns.

Every call stands at a site: the path of labels that leads to it through the
operations that contain it. Two calls of one program never share a site, so
a choice of outcomes by site is a choice of outcomes by awaited step.

`Code` is the programming style on top: a failure is thrown and caught, and the
variables an operation assigns before a failure keep their values in the handler.
-/

import Mathlib.Logic.Basic

namespace Effects

/-- What a program may ask of its surroundings: the calls, the type of each call's reply,
the failures, and the labels its awaited steps are told apart by. -/
structure Interface where
  Call : Type
  Reply : Call → Type
  Failure : Type
  Label : Type

/-- The answer to a call: its reply, or the failure it raised. -/
abbrev Interface.Answer (interface : Interface) (call : interface.Call) : Type :=
  Except interface.Failure (interface.Reply call)

/-- A site is the path of labels that leads to an awaited step. -/
abbrev Interface.Site (interface : Interface) : Type := List interface.Label

/-- A program: a result, or a call waiting for its answer. -/
inductive Program (interface : Interface) (Result : Type) : Type where
  | stop (result : Result)
  | ask (site : interface.Site) (call : interface.Call)
      (next : interface.Answer call → Program interface Result)

namespace Program

variable {interface : Interface} {First Second Third : Type}

/-- Sequencing: the second program starts from the result of the first. -/
def bind : Program interface First → (First → Program interface Second) →
    Program interface Second
  | stop result, rest => rest result
  | ask site call next, rest => ask site call fun answer => bind (next answer) rest

@[simp] theorem bind_stop (result : First) (rest : First → Program interface Second) :
    bind (stop result) rest = rest result := rfl

@[simp] theorem bind_ask (site : interface.Site) (call : interface.Call)
    (next : interface.Answer call → Program interface First)
    (rest : First → Program interface Second) :
    bind (ask site call next) rest = ask site call fun answer => bind (next answer) rest := rfl

/-- The same program, one step further in: every site gets the label in front. -/
def within (label : interface.Label) : Program interface First → Program interface First
  | stop result => stop result
  | ask site call next => ask (label :: site) call fun answer => within label (next answer)

@[simp] theorem within_stop (label : interface.Label) (result : First) :
    within label (stop result : Program interface First) = stop result := rfl

@[simp] theorem within_ask (label : interface.Label) (site : interface.Site)
    (call : interface.Call) (next : interface.Answer call → Program interface First) :
    within label (ask site call next) =
      ask (label :: site) call fun answer => within label (next answer) := rfl

end Program

/-! ### Code with failures and variables -/

/-- Code of one operation: it starts from the values of its variables and ends with a result
or a thrown failure, and in both cases with the values its variables then have. -/
def Code (interface : Interface) (Locals Result : Type) : Type :=
  Locals → Program interface (Except interface.Failure Result × Locals)

namespace Code

variable {interface : Interface} {Locals Inner First Second : Type}

/-- What follows a piece of code: the rest when it ended with a result, the same failure when
it threw one. -/
def resume (rest : First → Code interface Locals Second) :
    Except interface.Failure First × Locals →
      Program interface (Except interface.Failure Second × Locals)
  | (.ok result, locals) => rest result locals
  | (.error failure, locals) => .stop (.error failure, locals)

instance : Monad (Code interface Locals) where
  pure result := fun locals => .stop (.ok result, locals)
  bind code rest := fun locals => (code locals).bind (resume rest)

/-- One awaited call at the step `label`. -/
def call (label : interface.Label) (request : interface.Call) :
    Code interface Locals (interface.Reply request) :=
  fun locals => .ask [label] request fun answer => .stop (answer, locals)

/-- Throwing a failure. -/
def throw (failure : interface.Failure) : Code interface Locals First :=
  fun locals => .stop (.error failure, locals)

/-- Runs the code and hands on what became of it, result or failure. -/
def attempt (code : Code interface Locals First) :
    Code interface Locals (Except interface.Failure First) :=
  fun locals => (code locals).bind fun outcome => .stop (.ok outcome.1, outcome.2)

/-- Ends with the result, or throws the failure, of something attempted before. -/
def settled : Except interface.Failure First → Code interface Locals First
  | .ok result => pure result
  | .error failure => throw failure

/-- The values of the variables. -/
def read : Code interface Locals Locals := fun locals => .stop (.ok locals, locals)

/-- An assignment. -/
def assign (change : Locals → Locals) : Code interface Locals Unit :=
  fun locals => .stop (.ok (), change locals)

/-- Calls code with variables of its own. -/
def fresh (inner : Inner) (code : Code interface Inner First) : Code interface Locals First :=
  fun locals => (code inner).bind fun outcome => .stop (outcome.1, locals)

/-- The code of a named step: its sites lie under `label`. -/
def step (label : interface.Label) (code : Code interface Locals First) :
    Code interface Locals First :=
  fun locals => (code locals).within label

/-- Code that is run only when the condition holds. -/
def whenever (condition : Bool) (code : Code interface Locals Unit) :
    Code interface Locals Unit :=
  bif condition then code else pure ()

/-- `code` with its failure swallowed: whether it succeeded is all that is kept. -/
def succeeded (code : Code interface Locals First) : Code interface Locals Bool := do
  match ← code.attempt with
  | .ok _ => pure true
  | .error _ => pure false

/-- Code followed by `last`, whether it succeeded or failed. -/
def finally_ (code : Code interface Locals First) (last : Code interface Locals Unit) :
    Code interface Locals First := do
  let outcome ← code.attempt
  last
  settled outcome

@[simp] theorem resume_ok (rest : First → Code interface Locals Second) (result : First)
    (locals : Locals) : resume rest (.ok result, locals) = rest result locals := rfl

@[simp] theorem resume_error (rest : First → Code interface Locals Second)
    (failure : interface.Failure) (locals : Locals) :
    resume rest (.error failure, locals) = .stop (.error failure, locals) := rfl

@[simp] theorem pure_apply (result : First) (locals : Locals) :
    (pure result : Code interface Locals First) locals = .stop (.ok result, locals) := rfl

@[simp] theorem bind_apply (code : Code interface Locals First)
    (rest : First → Code interface Locals Second) (locals : Locals) :
    (code >>= rest) locals = (code locals).bind (resume rest) := rfl

@[simp] theorem call_apply (label : interface.Label) (request : interface.Call)
    (locals : Locals) :
    (call label request : Code interface Locals _) locals =
      .ask [label] request fun answer => .stop (answer, locals) := rfl

@[simp] theorem throw_apply (failure : interface.Failure) (locals : Locals) :
    (throw failure : Code interface Locals First) locals = .stop (.error failure, locals) := rfl

@[simp] theorem attempt_apply (code : Code interface Locals First) (locals : Locals) :
    code.attempt locals =
      (code locals).bind fun outcome => .stop (.ok outcome.1, outcome.2) := rfl

@[simp] theorem settled_ok (result : First) :
    (settled (.ok result) : Code interface Locals First) = pure result := rfl

@[simp] theorem settled_error (failure : interface.Failure) :
    (settled (.error failure) : Code interface Locals First) = throw failure := rfl

@[simp] theorem read_apply (locals : Locals) :
    (read : Code interface Locals Locals) locals = .stop (.ok locals, locals) := rfl

@[simp] theorem assign_apply (change : Locals → Locals) (locals : Locals) :
    (assign change : Code interface Locals Unit) locals = .stop (.ok (), change locals) := rfl

@[simp] theorem fresh_apply (inner : Inner) (code : Code interface Inner First)
    (locals : Locals) :
    (fresh inner code : Code interface Locals First) locals =
      (code inner).bind fun outcome => .stop (outcome.1, locals) := rfl

@[simp] theorem step_apply (label : interface.Label) (code : Code interface Locals First)
    (locals : Locals) : step label code locals = (code locals).within label := rfl

@[simp] theorem whenever_true (code : Code interface Locals Unit) :
    whenever true code = code := rfl

@[simp] theorem whenever_false (code : Code interface Locals Unit) :
    whenever false code = pure () := rfl

end Code

end Effects
