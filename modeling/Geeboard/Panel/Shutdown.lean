/-
This file is how a game is stopped and restarted, and how the panel finds out
whether one was running.

A stop says the game's own word for "save and exit" on its console, looks once a
second whether the game has gone, and sends the signal only when it has not. A
game with no such word is sent the signal at once.
-/

import Geeboard.Panel.Operations

namespace Geeboard.Panel

open Effects Effects.Code

variable {Locals : Type}

def AFTER_COMMAND_GRACE_SECONDS : Nat := 10

def POLL_MS : Time := 1000

/-- The process is gone. -/
def exited (state : RuntimeState) : Bool := state == .stopped || state == .crashed

/-- Looks once a second, until the game has gone or the deadline is over. A look waits a second
first, so there are no more of them than the grace has seconds. -/
def lookUntilExited (at_ : NodeId) (ref : RuntimeRef) (deadline : Time) :
    Nat → PanelCode Locals (Option RuntimeStatus)
  | 0 => pure none
  | looks + 1 => do
    let now ← await "now" .now
    if now < deadline then
      await "sleep" (.wait POLL_MS)
      match ← (ask "look" at_ (.status ref)).attempt with
      | .ok status =>
        if exited status.state then pure (some status)
        else step "again" (lookUntilExited at_ ref deadline looks)
      | .error _ => step "again" (lookUntilExited at_ ref deadline looks)
    else pure none

/-- Waits for a game that was told to exit; one that was not told is not waited for. -/
def waitToExit (at_ : NodeId) (ref : RuntimeRef) (graceSeconds : Nat) (told : Bool) :
    PanelCode Locals (Option RuntimeStatus) :=
  if told then do
    let now ← await "now" .now
    step "wait" (lookUntilExited at_ ref (now + graceSeconds * 1000) graceSeconds)
  else pure none

/-- Stops a game the way the game wants to be stopped. -/
def stopGracefully (at_ : NodeId) (ref : RuntimeRef) (dialect : Option ConsoleDialect)
    (graceSeconds : Nat) : PanelCode Locals RuntimeStatus :=
  let grace := max graceSeconds ((dialect.bind ConsoleDialect.stopGraceSeconds).getD 0)
  match dialect.bind ConsoleDialect.stopCommand with
  | none => ask "signal" at_ (.stop ref grace)
  | some command => do
    let sent ← (ask "command" at_ (.sendCommand ref command)).succeeded
    match ← waitToExit at_ ref grace sent with
    | some status => pure status
    | none => ask "signal" at_ (.stop ref AFTER_COMMAND_GRACE_SECONDS)

/-- Whether the server was running before it was touched: the runtime's word, or the row's when
the node will not say. -/
def wasRunning (at_ : NodeId) (ref : RuntimeRef) (server : ServerRow) : PanelCode Locals Bool := do
  match ← (ask "running" at_ (.status ref)).attempt with
  | .ok status => pure status.state.up
  | .error _ => pure (server.state == .running || server.state == .unhealthy)

end Geeboard.Panel
