/-
This file is what the panel means by the state of a game server.

A server is in one of fifteen states. Some of them are the runtime's view, some
are the platform's own: while an operation holds a server the state says so, and
neither the watchdog nor the buttons may change it. Which states an operation
may begin from, and what a reading of the node does to the recorded state, are
decided here, without a database.
-/

import Geeboard.Text.Lines

namespace Geeboard.Panel

/-- The states of a server row. -/
inductive ServerState where
  | creating | installing | starting | running | unhealthy | stopping | stopped | restarting
  | updating | backingUp | migrating | deleting | crashed | suspended | error
  deriving DecidableEq, Repr

/-- What a node says about a workload. -/
inductive RuntimeState where
  | running | starting | stopping | stopped | crashed | unknown
  deriving DecidableEq, Repr

/-- The long operations that hold a server. -/
inductive Operation where
  | backup | restore | update | rollback | rebuild | settings | move
  deriving DecidableEq, Repr

/-- Times are milliseconds. -/
abbrev Time := Nat

/-! ### Holding a server -/

/-- The state each operation puts the server in while it runs. -/
def OPERATION_STATE : Operation → ServerState
  | .backup => .backingUp
  | .restore => .updating
  | .update => .updating
  | .rollback => .updating
  | .rebuild => .updating
  | .settings => .updating
  | .move => .migrating

/-- The states an operation may begin from. -/
def OPERABLE : List ServerState := [.running, .unhealthy, .stopped, .crashed, .error]

/-- The states that mean an operation holds the server. -/
def HELD_BY_OPERATION : List ServerState := [.backingUp, .updating, .migrating]

/-- An operation holds a server in this state. -/
def ServerState.held (state : ServerState) : Bool := HELD_BY_OPERATION.contains state

/-- An operation may begin from this state. -/
def ServerState.operable (state : ServerState) : Bool := OPERABLE.contains state

/-! ### The words for it -/

def NAME : Operation → String
  | .backup => "a backup"
  | .restore => "a restore"
  | .update => "an update"
  | .rollback => "a rollback"
  | .rebuild => "a rebuild"
  | .settings => "a settings rebuild"
  | .move => "a move"

def STATE_WORD : ServerState → Option String
  | .creating => some "being created"
  | .installing => some "installing"
  | .starting => some "starting"
  | .stopping => some "stopping"
  | .restarting => some "restarting"
  | .deleting => some "being deleted"
  | .suspended => some "suspended"
  | _ => none

/-- The state's own name in lower case. -/
def ServerState.word : ServerState → String
  | .creating => "creating"
  | .installing => "installing"
  | .starting => "starting"
  | .running => "running"
  | .unhealthy => "unhealthy"
  | .stopping => "stopping"
  | .stopped => "stopped"
  | .restarting => "restarting"
  | .updating => "updating"
  | .backingUp => "backing_up"
  | .migrating => "migrating"
  | .deleting => "deleting"
  | .crashed => "crashed"
  | .suspended => "suspended"
  | .error => "error"

/-- A text without the full stops and the white space at its end. -/
def bare (text : String) : String :=
  String.ofList (text.toList.rdropWhile fun char => Text.isSpace char || char == '.')

/-- Milliseconds in the unit a person reads them in, each rounded half up. -/
def duration (ms : Time) : String :=
  let seconds := (ms + 500) / 1000
  if seconds < 90 then s!"{seconds} s" else
    let minutes := (seconds + 30) / 60
    if minutes < 120 then s!"{minutes} min" else s!"{(minutes + 30) / 60} h"

/-- What is read of a server to say who has it. -/
structure Held where
  state : ServerState
  operation : Option Operation
  operationStartedAt : Option Time

/-- Why a server cannot be claimed, in one sentence. -/
def busyReason (server : Held) (now : Time) : String :=
  match server.state.held, server.operation with
  | true, some operation =>
    let since := match server.operationStartedAt with
      | some started => s!" for {duration (now - started)}"
      | none => ""
    s!"Busy: {NAME operation} has been running{since}."
  | true, none =>
    let what := match server.state with
      | .backingUp => "a backup"
      | .migrating => "a move"
      | _ => "an update"
    s!"Busy: {what} is running."
  | false, _ => match STATE_WORD server.state with
    | some word => s!"Busy: it is {word}."
    | none => s!"Not now: it is {server.state.word}."

/-! ### The runtime's view and the platform's -/

def PLATFORM_OWNED : List ServerState :=
  [.creating, .installing, .updating, .backingUp, .migrating, .deleting, .suspended]

def LIVE : List ServerState := [.running, .unhealthy]

/-- The runtime's vocabulary, read as a server state. -/
def mapRuntimeState : RuntimeState → ServerState
  | .running => .running
  | .starting => .starting
  | .stopping => .stopping
  | .crashed => .crashed
  | .stopped => .stopped
  | .unknown => .stopped

/-- A process is up when it runs or is on its way there. -/
def RuntimeState.up : RuntimeState → Bool
  | .running => true
  | .starting => true
  | _ => false

/-- How loud an entry of the activity log is. -/
inductive Tone where
  | accent | danger | warning | info | muted | success
  deriving DecidableEq, Repr

/-- What a reading of the node does to the recorded state. -/
structure Reconciliation where
  state : ServerState
  held : Bool
  event : Option (String × Tone)

/-- A change nobody asked for is news. -/
def driftEvent (before after : ServerState) : Option (String × Tone) :=
  if after = .crashed then some ("server.crashed", .danger)
  else if after = .stopped && [.running, .starting, .unhealthy].contains before then
    some ("server.stopped.unexpectedly", .warning)
  else if after = .running && [.stopped, .crashed, .error].contains before then
    some ("server.recovered", .info)
  else none

/-- Reconciles what the panel believes with what the node reports. -/
def reconcile (current observed : ServerState) : Reconciliation :=
  if PLATFORM_OWNED.contains current then ⟨current, true, none⟩
  else if current = observed then ⟨observed, false, none⟩
  else if current = .error && (observed = .crashed || observed = .stopped) then
    ⟨.error, true, none⟩
  else if current = .unhealthy && observed = .running then ⟨.unhealthy, true, none⟩
  else ⟨observed, false, driftEvent current observed⟩

/-- A node that is answering says the server's workload does not exist. -/
def workloadMissing (current : ServerState) : Reconciliation :=
  if PLATFORM_OWNED.contains current then ⟨current, true, none⟩
  else ⟨.error, false, some ("server.workload.missing", .danger)⟩

/-- Whether a held state is the end of the poller's look at a server. -/
def endsThePass (outcome : Reconciliation) : Bool := outcome.held && outcome.state != .unhealthy

end Geeboard.Panel
