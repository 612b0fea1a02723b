/-
This file models the sweep that clears up after an agent that was killed.

Archives and uploads that were never finished go once they have not been touched
for a while, and so do the directories of a restore that never ended. A world
that was set aside and whose place is empty is moved back instead. Which of the
two a directory is, the sweep reads off its name, and it meets the names in the
order in which the data root happens to be listed.
-/

import Geeboard.Agent.Restore

namespace Geeboard.Agent

open Effects Code

/-! ### What a name says -/

def isHex (char : Char) : Bool := char.isDigit || ('a' ≤ char && char ≤ 'f')

def endsLine (char : Char) : Bool :=
  char == '\n' || char == '\r' || char == '\u2028' || char == '\u2029'

/-- What stands before `mark` in a name that ends in it and a run of hexadecimal digits: the
name of the server the directory belongs to. -/
def nameBefore (mark name : String) : Option String :=
  let reversed := name.toList.reverse
  let stem := (reversed.dropWhile isHex).drop mark.length
  if (reversed.takeWhile isHex).isEmpty || stem.isEmpty || stem.any endsLine then none
  else if mark.toList.reverse.isPrefixOf (reversed.dropWhile isHex) then
    some (String.ofList stem.reverse)
  else none

/-- The server whose restore a directory was being unpacked for. -/
def restoringOf (name : String) : Option String := nameBefore ".restoring-" name

/-- The server whose world a directory was set aside from. -/
def replacedOf (name : String) : Option String := nameBefore ".replaced-" name

/-! ### The sweep -/

structure SweepOptions where
  startup : Bool
  now : Nat
  deriving DecidableEq, Repr

structure SweepResult where
  removed : List Path := []
  recovered : List String := []
  deriving DecidableEq, Repr

namespace SweepResult

def and (first second : SweepResult) : SweepResult where
  removed := first.removed ++ second.removed
  recovered := first.recovered ++ second.recovered

end SweepResult

def hour : Nat := 3600000

/-- How long a leftover must have been idle. At start-up nothing is in flight. -/
def idle (options : SweepOptions) (hours : Nat) : Nat :=
  if options.startup then 0 else hours * hour

/-- How long since anything under a path was touched, when something is there. -/
def ageOf (target : Path) (now : Nat) : AgentCode (Option Int) := do
  match ← (newest .age target).attempt with
  | .ok touched => pure (some ((now : Int) - touched))
  | .error _ => pure none

def list (folder : Path) : AgentCode (List String) := do
  match ← (readdir (.list folder) folder).attempt with
  | .ok names => pure names
  | .error _ => pure []

def drop (options : SweepOptions) (target : Path) (minIdle : Nat) : AgentCode SweepResult := do
  match ← ageOf target options.now with
  | none => pure {}
  | some age =>
    if age < minIdle then pure {}
    else do
      rm .drop target
      pure { removed := [target] }

/-- Carries the sweep out for every name in turn. -/
def sweepEach (names : List String) (one : String → AgentCode SweepResult) :
    AgentCode SweepResult :=
  match names with
  | [] => pure {}
  | name :: rest => do
    let first ← step (.entry name) (one name)
    let second ← sweepEach rest one
    pure (first.and second)

def mentionsPartial (name : String) : Bool := mentions ".tar.gz.partial.".toList name.toList

def endsInUpload (name : String) : Bool := ".upload".toList.isSuffixOf name.toList

/-- The unfinished files of one kind, in every server's own folder. -/
def sweepFolder (options : SweepOptions) (folder : String) (unfinished : String → Bool) :
    AgentCode SweepResult := do
  let servers ← list [folder]
  sweepEach servers fun server => do
    let names ← list [folder, server]
    sweepEach names fun name =>
      if unfinished name then drop options [folder, server, name] (idle options 3)
      else pure {}

/-- One entry of the data root: a world being restored goes when it is old, and a world set
aside for it goes when it is old, or comes back when its place is empty. -/
def sweepWorld (options : SweepOptions) (name : String) : AgentCode SweepResult :=
  match restoringOf name with
  | some _ => drop options [name] (idle options 6)
  | none =>
    match replacedOf name with
    | none => pure {}
    | some server => do
      let present ← (stat .statWorld [server]).succeeded
      if present then drop options [name] (idle options 24)
      else do
        rename .recover [name] [server]
        pure { recovered := [server] }

def sweepLeftovers (options : SweepOptions) : AgentCode SweepResult := do
  let archives ← sweepFolder options ".backups" mentionsPartial
  let uploads ← sweepFolder options ".uploads" endsInUpload
  let names ← list []
  let worlds ← sweepEach names (sweepWorld options)
  pure ((archives.and uploads).and worlds)

example : replacedOf "srv.replaced-0a1b" = some "srv" := by decide

example : replacedOf "srv.restoring-0a1b" = none := by decide

end Geeboard.Agent
