/-
This file is how the watchdog brings a server back that went down by itself, and
when it stops trying.

A crash and a stop nobody asked for are decided by the same rules: a ceiling on
attempts, a delay that grows between them, and a reset that comes only when the
server has stayed up. A stop that the machine is behind is started again for free,
and a game that ran out of memory is not started again at all.

A pass over a server reads its row first and asks its node then. What it decides,
and how many attempts it writes in the end, goes by the row as it was read.
-/

import Geeboard.Panel.Shutdown

namespace Geeboard.Panel

/-- What a health check came to. -/
inductive HealthVerdict where
  | healthy | unhealthy | unsaid
  deriving DecidableEq, Repr

/-- What the watchdog does about a server that went down by itself. -/
inductive RecoveryDecision where
  | ignore
  | wait
  | giveUp (reason : String)
  | restart (attempt : Nat) (reason : String)
  deriving DecidableEq, Repr

/-! ### What a look at the server finds -/

def STOP_PENDING : String := "Stopped without the panel asking"

/-- The server is marked as waiting for its turn to be started again. -/
def stopPending (server : ServerRow) : Bool :=
  STOP_PENDING.toList.isPrefixOf (server.lastError.getD "").toList

/-- The state after the health check's word. -/
def judged (state : ServerState) (health : Option HealthVerdict) : ServerState :=
  if health = some .unhealthy ∧ state = .running then .unhealthy
  else if health = some .healthy ∧ state = .unhealthy then .running
  else state

/-! ### The decisions -/

/-- How a policy reads. -/
def RESTART_POLICY_LABELS : RestartPolicy → String
  | .never => "Never restart"
  | .onFailure => "Restart after a crash"
  | .always => "Restart whenever it stops"

def BACKOFF_MS : List Time := [0, 30000, 120000, 300000]

/-- The delay before the next attempt. -/
def backoffFor (attempt : Nat) : Time :=
  BACKOFF_MS.getD (min attempt (BACKOFF_MS.length - 1)) 0

def STABLE_AFTER_MS : Time := 10 * 60000

/-- The stable window of a game, never shorter than its boot takes. -/
def stableWindowFor (bootGraceSeconds : Nat) : Time := max STABLE_AFTER_MS (bootGraceSeconds * 1500)

/-- The last attempt was too short a time ago. -/
def tooSoon (attempts : Nat) (lastRestartAt : Option Time) (now : Time) : Bool :=
  match lastRestartAt with
  | some last => now < last + backoffFor attempts
  | none => false

/-- What a decision about a crash looks at. -/
structure RecoveryInput where
  state : ServerState
  policy : RestartPolicy
  attempts : Nat
  maxRestarts : Nat
  lastRestartAt : Option Time
  exitCode : Option Int
  oomKilled : Bool

/-- Why the panel gives up on a server that ran out of memory. -/
def outOfMemoryReason : String :=
  "It ran out of memory. Restarting would hit the same limit — raise the memory ceiling " ++
    "first."

/-- Why the panel gives up on a server that keeps going down in the same way. -/
def inARowReason (wentDown : String) (attempts : Nat) : String :=
  s!"It {wentDown} {attempts} times in a row without staying up. Something is wrong that " ++
    "restarting will not fix."

/-- What to do about a crash. -/
def decideRecovery (input : RecoveryInput) (now : Time) : RecoveryDecision :=
  let attempt := input.attempts + 1
  if input.state ≠ .crashed then .ignore
  else if input.policy = .never then .ignore
  else if input.policy = .onFailure ∧ input.exitCode = some 0 ∧ input.oomKilled = false then .ignore
  else if input.oomKilled then
    .giveUp outOfMemoryReason
  else if input.maxRestarts ≤ input.attempts then
    .giveUp (inARowReason "crashed" input.attempts)
  else if tooSoon input.attempts input.lastRestartAt now then .wait
  else .restart attempt (if attempt = 1 then "It crashed; restarting."
    else s!"It crashed again; restart {attempt} of {input.maxRestarts}.")

/-- What there is to say about why a server stopped. -/
inductive StopEvidence where
  | signal | together | none
  deriving DecidableEq, Repr

/-- The exit codes a signal leaves. -/
def endedBySignal (exitCode : Option Int) : Bool :=
  exitCode == some 143 || exitCode == some 137 || exitCode == some 130

def stopEvidence (exitCode : Option Int) (stoppedOnNode : Nat) : StopEvidence :=
  if endedBySignal exitCode then .signal else if 2 ≤ stoppedOnNode then .together else .none

/-- What a decision about a stop nobody asked for looks at. -/
structure StopRecoveryInput where
  policy : RestartPolicy
  attempts : Nat
  maxRestarts : Nat
  lastRestartAt : Option Time
  evidence : StopEvidence

/-- Why the panel starts a server that the machine stopped. -/
def signalReason : String :=
  "Docker or the machine stopped it; its policy is to restart whenever it stops, so the panel " ++
    "started it."

/-- Why the panel starts a server that stopped with the others of its node. -/
def togetherReason : String :=
  "It stopped together with the other servers of its node, which points at the machine or " ++
    "Docker restarting; its policy is to restart whenever it stops, so the panel started it."

/-- Why the panel starts a server that stopped for no reason it knows. -/
def unaskedReason (attempt maxRestarts : Nat) : String :=
  if attempt = 1 then
    "It stopped and the panel did not ask it to; its policy is to restart whenever it stops, " ++
      "so the panel started it."
  else
    s!"It stopped and the panel did not ask it to, again; restart {attempt} of {maxRestarts}."

/-- What to do about a server that stopped without being asked. -/
def decideAfterStop (input : StopRecoveryInput) (now : Time) : RecoveryDecision :=
  let attempt := input.attempts + 1
  if input.policy ≠ .always then .ignore
  else if input.evidence = .signal then
    .restart input.attempts signalReason
  else if input.evidence = .together then .restart input.attempts togetherReason
  else if input.maxRestarts ≤ input.attempts then
    .giveUp (inARowReason "stopped" input.attempts)
  else if tooSoon input.attempts input.lastRestartAt now then .wait
  else .restart attempt (unaskedReason attempt input.maxRestarts)

/-- The current run has lasted long enough to forget the attempts. -/
def shouldForgiveAttempts (state : ServerState) (startedAt : Option Time) (attempts : Nat)
    (bootGraceSeconds : Nat) (now : Time) : Bool :=
  match startedAt with
  | some started =>
    attempts != 0 && state == .running && started + stableWindowFor bootGraceSeconds ≤ now
  | none => false

/-- What a server's page says of a stop that its policy leaves it in. -/
def leftStoppedReason (policy : RestartPolicy) (evidence : StopEvidence) (node : String)
    (others : Nat) (known : Option String) : String :=
  let rule := s!"Its restart policy is \"{RESTART_POLICY_LABELS policy}\", which does not start it " ++
    "again, so it was left stopped. Start it from this page."
  let plural := if others = 1 then "" else "s"
  match known, evidence with
  | some known, _ => s!"{known} {rule}"
  | none, .signal => "Docker or the machine stopped it: the game was ended by a signal, which is " ++
    s!"what a restart of either does. {rule}"
  | none, .together => s!"It stopped together with {others} other server{plural} on {node}, " ++
    s!"which points at the machine or Docker restarting. {rule}"
  | none, .none => "The panel did not stop it and nothing says why: the game may have quit by " ++
    "itself or been stopped from inside it or on the node, or the machine or Docker may have " ++
    s!"restarted. {rule}"

/-! ### What the decisions say -/

theorem of_decideRecovery_restart {input : RecoveryInput} {now : Time} {attempt : Nat}
    {reason : String} (decided : decideRecovery input now = .restart attempt reason) :
    attempt = input.attempts + 1 ∧ input.attempts < input.maxRestarts ∧
      input.oomKilled = false := by
  unfold decideRecovery at decided
  grind

theorem of_decideAfterStop_restart {input : StopRecoveryInput} {now : Time} {attempt : Nat}
    {reason : String} (decided : decideAfterStop input now = .restart attempt reason) :
    (input.evidence ≠ .none ∧ attempt = input.attempts) ∨
      (input.evidence = .none ∧ attempt = input.attempts + 1 ∧
        input.attempts < input.maxRestarts) := by
  unfold decideAfterStop at decided
  rcases evidence : input.evidence with _ | _ | _
  · grind
  · grind
  · grind

theorem of_decideAfterStop_giveUp {input : StopRecoveryInput} {now : Time} {reason : String}
    (decided : decideAfterStop input now = .giveUp reason) :
    input.evidence = .none ∧ input.maxRestarts ≤ input.attempts := by
  unfold decideAfterStop at decided
  rcases evidence : input.evidence with _ | _ | _
  · grind
  · grind
  · grind

/-! ### One pass over a server -/

/-- What a node says of a server in one pass, and what the pass comes to beside it: who is
connected, the word of the health check, what the console says of a failure, and how many servers
of the node were found stopped. -/
structure NodeReport where
  missing : Bool := false
  state : RuntimeState := .running
  startedAt : Option Time := none
  exitCode : Option Int := none
  oomKilled : Bool := false
  playersOn : Option Nat := none
  health : Option HealthVerdict := none
  known : Option String := none
  stoppedOnNode : Nat := 1
  node : String := ""
  bootGraceSeconds : Nat := 0

/-- What kind of going down a pass is about. -/
inductive DownKind where
  | crash | outOfMemory | stop | machine
  deriving DecidableEq, Repr

/-- The server stopped without being asked, and did not crash. -/
def DownKind.afterStop : DownKind → Bool
  | .stop => true
  | .machine => true
  | _ => false

/-- What a pass has come to: the row is read; the node has answered; the workload is to be marked
as gone; a crash or a stop is to be decided; it is to be said why the server is left stopped, or
that it waits for its turn, or that it is given up on; it is to be started; it was started, and
that is to be written; it was written, and a later failure has it written once more. -/
inductive Stage where
  | reading
  | looked (report : NodeReport)
  | gone (node : String)
  | crashed (attempts : Nat) (report : NodeReport)
  | stopped (evidence : StopEvidence)
  | leaving (reason : String)
  | marking
  | giving (kind : DownKind) (reason : String)
  | starting (kind : DownKind) (attempt : Nat)
  | started (kind : DownKind) (attempt : Nat)
  | unnoted (kind : DownKind) (attempt : Nat)

/-- A pass over a server: its row as it was read, and what the pass has come to. -/
structure Pass where
  read : ServerRow
  stage : Stage

section Look

variable (read : ServerRow) (report : NodeReport) (now : Time)

/-- What the node's answer makes of the state that was read. -/
def observed : Reconciliation := reconcile read.state (mapRuntimeState report.state)

def observedState : ServerState :=
  judged (observed read report).state
    (if LIVE.contains (observed read report).state then report.health else none)

def observedStart : Option Time := report.startedAt <|> read.startedAt

/-- The attempts that were read are forgiven. -/
def forgiven : Bool :=
  shouldForgiveAttempts (observedState read report) (observedStart read report)
    read.restartAttempts report.bootGraceSeconds now

/-- What a pass writes of what it found, while the server is in the state that was read. -/
def observation : ServerChange :=
  let live := LIVE.contains (observed read report).state
  { state := some (observedState read report)
    startedAt := some (if live then observedStart read report else none)
    playersOn := some (if live then report.playersOn.getD read.playersOn else 0)
    restartAttempts := if forgiven read report now then some 0 else none }

/-- What a pass goes on with once that is written. -/
def afterObservation : Option Stage :=
  if observedState read report = .crashed then
    some (.crashed (if forgiven read report now then 0 else read.restartAttempts) report)
  else if observedState read report = .stopped ∧ read.state = .stopped ∧
      read.restartPolicy = .always ∧ stopPending read then
    some (.stopped .none)
  else if (observed read report).event.any fun event => event.1 == "server.stopped.unexpectedly" then
    let evidence := stopEvidence report.exitCode report.stoppedOnNode
    if read.restartPolicy = .always then some (.stopped evidence)
    else
      some (.leaving (leftStoppedReason read.restartPolicy evidence report.node
        (report.stoppedOnNode - 1) report.known))
  else none

/-- What a pass goes on with once a going down of the kind is decided. -/
def follow (kind : DownKind) : RecoveryDecision → Option Stage
  | .ignore => none
  | .wait => if kind.afterStop && !stopPending read then some .marking else none
  | .giveUp reason => some (.giving kind reason)
  | .restart attempt _ => some (.starting kind attempt)

/-- Brings a crashed server back, if its policy says so. -/
def recover (attempts : Nat) : Option Stage :=
  follow read (if report.oomKilled then .outOfMemory else .crash)
    (decideRecovery ⟨.crashed, read.restartPolicy, attempts, read.maxRestarts, read.lastRestartAt,
      report.exitCode, report.oomKilled⟩ now)

/-- Starts a server again that stopped without being asked, if its policy says so. -/
def recoverAfterStop (evidence : StopEvidence) : Option Stage :=
  follow read (if evidence = .none then .stop else .machine)
    (decideAfterStop ⟨read.restartPolicy, read.restartAttempts, read.maxRestarts,
      read.lastRestartAt, evidence⟩ now)

end Look

/-- The write of a start. One that was refused is an attempt as well. -/
def startWritten (kind : DownKind) (attempt : Nat) (refusal : Option String) (wrote : Time) :
    ServerChange :=
  match refusal with
  | none =>
    { state := some .starting, restartAttempts := some attempt, lastRestartAt := some (some wrote)
      startedAt := some (some wrote), lastError := if kind.afterStop then some none else none }
  | some said =>
    { restartAttempts := some attempt, lastRestartAt := some (some wrote)
      lastError := if kind.afterStop then
          some (some s!"{STOP_PENDING}; the last attempt to start it failed: {said}")
        else none }

/-- What a pass writes last, whatever the row is by then. -/
def Stage.lastWrite (refusal : Option String) (wrote : Time) : Stage → Option ServerChange
  | .gone node => some
    { state := some .error, runtimeId := some none, startedAt := some none
      readyAt := some none, cpuPct := some 0, ramPct := some 0, playersOn := some 0
      lastError := some (some s!"Its workload was removed from {node} outside the panel.") }
  | .leaving reason => some { lastError := some (some reason) }
  | .marking => some
    { lastError := some (some s!"{STOP_PENDING}; starting it again when its turn comes.") }
  | .giving _ reason => some { state := some .error, lastError := some (some reason) }
  | .started kind attempt => some (startWritten kind attempt refusal wrote)
  | .unnoted kind attempt => some (startWritten kind attempt (some (refusal.getD "")) wrote)
  | _ => none

/-- What a pass goes on with after its last write: a start that worked and was written is written
once more, as one that failed, when no line can be made of it. -/
def Stage.afterWrite (refusal : Option String) (noted : Bool) : Stage → Option Stage
  | .started kind attempt =>
    if refusal = none ∧ noted = false then some (.unnoted kind attempt) else none
  | _ => none

/-- What the watchdog did: it asked for a start, it wrote the attempts, with those the row had
before and after, or it gave up. -/
inductive WatchdogAct where
  | restarted (kind : DownKind)
  | recorded (kind : DownKind) (before after : Nat)
  | gaveUp (kind : DownKind)
  deriving DecidableEq, Repr

/-- What a pass has done with its last write. -/
def Stage.acts (attempts : Nat) : Stage → List (Option WatchdogAct)
  | .giving kind _ => [some (.gaveUp kind)]
  | .started kind attempt => [some (.recorded kind attempts attempt)]
  | .unnoted kind attempt => [some (.recorded kind attempts attempt)]
  | _ => []

/-! ### Passes and other writes -/

/-- A server under watch: its row, the passes over it, and what was done about it, the latest
first. `none` is a reset of the attempts. -/
structure Watched where
  row : ServerRow
  passes : List (Nat × Pass)
  log : List (Option WatchdogAct)

def Watched.pass (watched : Watched) (number : Nat) : Option Pass := watched.passes.lookup number

/-- A pass goes on, or ends. -/
def Watched.goOn (watched : Watched) (number : Nat) (pass : Option Pass) : Watched :=
  { watched with
    passes := (pass.map (Prod.mk number)).toList ++
      watched.passes.filter fun entry => entry.1 != number }

/-- A write of the columns an update names. -/
def Watched.put (watched : Watched) (change : ServerChange) (now : Time) : Watched :=
  { watched with row := watched.row.apply change now }

/-- The node's answer: a workload that is gone, which goes by the row as it is now, a state that
is held, or a state to be written. -/
def Watched.answered (watched : Watched) (number : Nat) (read : ServerRow) (report : NodeReport)
    (wrote : Time) : Watched :=
  if report.missing then
    if watched.row.runtimeId ≠ read.runtimeId ∨ (workloadMissing watched.row.state).held then
      watched.goOn number none
    else watched.goOn number (some ⟨read, .gone report.node⟩)
  else if endsThePass (observed read report) then watched.goOn number none
  else
    let outcome := observed read report
    let why := if outcome.event.isSome && !LIVE.contains outcome.state then report.known else none
    (watched.put { lastError := why.map some } wrote).goOn number (some ⟨read, .looked report⟩)

/-- The write of what was found, which lands while the server is in the state that was read. -/
def Watched.observe (watched : Watched) (number : Nat) (read : ServerRow) (report : NodeReport)
    (now wrote : Time) : Watched :=
  if watched.row.state = read.state then
    { watched.put (observation read report now) wrote with
      log := if forgiven read report now then none :: watched.log else watched.log }.goOn number
        ((afterObservation read report now).map (Pass.mk read))
  else watched.goOn number none

/-- What happens to a server under watch. Of a pass: it reads the row, the node answers, what was
found is written, what to do is decided, a start is called, the last write is made and then a line
of it, which may fail; or the pass is lost, to a failing write or with the poller. Beside the
passes: a reset of the attempts by somebody who may also change the policy and the ceiling, and any
other write of the row. -/
inductive WatchEvent where
  | read (number : Nat)
  | look (number : Nat) (report : NodeReport) (wrote : Time)
  | observe (number : Nat) (now wrote : Time)
  | decide (number : Nat) (now : Time)
  | start (number : Nat)
  | write (number : Nat) (refusal : Option String) (noted : Bool) (wrote : Time)
  | lose (number : Nat)
  | reset (policy : RestartPolicy) (maxRestarts : Nat) (change : ServerChange) (now : Time)
  | other (change : ServerChange) (now : Time)

def watchStep (watched : Watched) : WatchEvent → Option Watched
  | .read number =>
    if watched.row.runtimeId.isSome ∧ watched.pass number = none then
      some (watched.goOn number (some ⟨watched.row, .reading⟩))
    else none
  | .look number report wrote =>
    match watched.pass number with
    | some ⟨read, .reading⟩ => some (watched.answered number read report wrote)
    | _ => none
  | .observe number now wrote =>
    match watched.pass number with
    | some ⟨read, .looked report⟩ => some (watched.observe number read report now wrote)
    | _ => none
  | .decide number now =>
    match watched.pass number with
    | some ⟨read, .crashed attempts report⟩ =>
      some (watched.goOn number ((recover read report now attempts).map (Pass.mk read)))
    | some ⟨read, .stopped evidence⟩ =>
      some (watched.goOn number ((recoverAfterStop read now evidence).map (Pass.mk read)))
    | _ => none
  | .start number =>
    match watched.pass number with
    | some ⟨read, .starting kind attempt⟩ =>
      some { watched.goOn number (some ⟨read, .started kind attempt⟩) with
        log := some (.restarted kind) :: watched.log }
    | _ => none
  | .write number refusal noted wrote =>
    (watched.pass number).bind fun pass =>
      (pass.stage.lastWrite refusal wrote).map fun change =>
        { (watched.put change wrote).goOn number
            ((pass.stage.afterWrite refusal noted).map (Pass.mk pass.read)) with
          log := pass.stage.acts watched.row.restartAttempts ++ watched.log }
  | .lose number => (watched.pass number).map fun _ => watched.goOn number none
  | .reset policy maxRestarts change now =>
    some { watched with
      row := { watched.row.apply { change with restartAttempts := some 0 } now with
        restartPolicy := policy, maxRestarts := maxRestarts }
      log := none :: watched.log }
  | .other change now => some (watched.put { change with restartAttempts := none } now)

end Geeboard.Panel
