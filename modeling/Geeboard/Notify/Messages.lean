/-
This file is about the messages that a batch of audit rows is made into.

Rows are read in the order of time and id. Rows of one cause are one subject: the
crashes of a server, what was given up about it, the outage of a node; any other row
is a subject of its own. A restart that the panel made is joined to the crash it put
right, and a backup that failed because its node is down is the node being down. The
subjects of one kind are one message, and the messages are sorted by their times, which
are texts by then.
-/

import Geeboard.Panel.Catalogs
import Geeboard.Scheduling.NextRun
import Geeboard.Systems.IsoTimes
import Geeboard.Text.Records

namespace Geeboard.Notify.Rules

open Catalogs (Collation)
open Scheduling.Moments (Moment)
open Systems
open Systems.IsoTimes (isoText)
open Text (Record)

/-! ### Rows -/

/-- What the audit log's rows can tell people. -/
inductive NotificationKind where
  | serverCrashed | recoveryAbandoned | leftStopped | nodeUnreachable | nodeRecovered
  | backupFailed | backupDamaged | serverUpdate | panelUpdate
  deriving DecidableEq, Repr

/-- A kind as the log has it. -/
def NotificationKind.action : NotificationKind → String
  | .serverCrashed => "server.crashed"
  | .recoveryAbandoned => "server.recovery.abandoned"
  | .leftStopped => "server.left.stopped"
  | .nodeUnreachable => "node.unreachable"
  | .nodeRecovered => "node.recovered"
  | .backupFailed => "backup.failed"
  | .backupDamaged => "backup.damaged"
  | .serverUpdate => "server.update.available"
  | .panelUpdate => "panel.update.available"

/-- The audit rows that become messages. -/
def NOTIFIABLE_ACTIONS : List NotificationKind :=
  [.serverCrashed, .recoveryAbandoned, .leftStopped, .nodeUnreachable, .nodeRecovered,
    .backupFailed, .backupDamaged, .serverUpdate, .panelUpdate]

/-- The kind of a row that becomes a message. -/
def kindOf (action : String) : Option NotificationKind :=
  NOTIFIABLE_ACTIONS.find? fun kind => kind.action == action

/-- One change that a row keeps: what there was and what there is, where they are texts. -/
structure Change where
  from_ : Option String
  to_ : Option String
  deriving DecidableEq, Repr

/-- The server a row is about, while it exists. -/
structure ServerJoined where
  id : String
  name : String
  slug : Option String
  nodeName : Option String
  lastExitCode : Option Int
  oomKilled : Bool
  deriving DecidableEq, Repr

/-- An audit row, with what could be joined to it. -/
structure AuditEvent where
  id : String
  action : String
  at_ : Moment
  actor : String
  target : Option String
  changes : Record String Change
  server : Option ServerJoined
  serverName : Option String

/-- The panel's own address, where it was set. -/
structure Context where
  panelUrl : Option String

/-! ### Wording -/

/-- A text that is there and not empty. -/
def truthy (text : Option String) : Option String := text.filter fun text => text != ""

def change (event : AuditEvent) (key : String) : Option String :=
  (event.changes.get key).bind Change.to_

/-- "A", "A and B", "A, B and C", and at most five of them. -/
def listNames (names : List String) : String :=
  let shown := names.take 5
  let rest := names.length - shown.length
  let head := if shown.length ≤ 1 then "".intercalate shown
    else ", ".intercalate shown.dropLast ++ " and " ++ shown.getLastD ""
  if 0 < rest then ", ".intercalate shown ++ s!" and {rest} more" else head

def nameOf (event : AuditEvent) : String :=
  (((event.server.map ServerJoined.name).or event.serverName).or event.target).getD "a server"

def nodeOf (event : AuditEvent) : Option String :=
  if "node.".toList.isPrefixOf event.action.toList then event.target
  else event.server.bind ServerJoined.nodeName

def link (context : Context) (path : String) : Option String :=
  (truthy context.panelUrl).map fun url => url ++ path

/-- Lower-case letters for the capitals among them. -/
def lowered (text : List Char) : List Char := text.map Char.toLower

/-- Whether some words stand in a text, in small letters or capitals. -/
def mentions (words : String) (text : List Char) : Bool :=
  text.tails.any fun rest => (lowered words.toList).isPrefixOf (lowered rest)

def endsLine (char : Char) : Bool := ['\n', '\r', '\u2028', '\u2029'].contains char

/-- Whether some words stand in a text, and others later in the same line. -/
def mentionsThen (words others : String) (text : List Char) : Bool :=
  text.tails.any fun rest => (lowered words.toList).isPrefixOf (lowered rest) &&
    mentions others ((rest.drop words.length).takeWhile fun char => !endsLine char)

/-- The words a failure to reach a node is written in. -/
def unreachableReason (event : AuditEvent) : Bool :=
  let reason := ((change event "Reason").getD "").toList
  ["unreachable", "did not answer", "refused the connection", "closed the connection before",
      "no route from this panel", "could not be reached", "does not resolve",
      "presented a certificate"].any (mentions · reason) ||
    mentionsThen "answered at " " but not like a Geeboard agent" reason

/-- A byte as two hexadecimal digits. -/
def hexByte (byte : UInt8) : List Char :=
  [(byte.toNat / 16).digitChar.toUpper, (byte.toNat % 16).digitChar.toUpper]

/-- A character as a part of an address may hold it. -/
def encodeChar (char : Char) : List Char :=
  if char.isAlphanum || "-_.!~*'()".toList.contains char then [char]
  else (Text.encode [char]).flatMap fun byte => '%' :: hexByte byte

def encodeURIComponent (text : String) : String :=
  String.ofList (text.toList.flatMap encodeChar)

/-! ### Subjects -/

/-- One thing that happened: its first row, those that were merged into it, and for a crash the
restart that put it right. -/
structure Subject where
  kind : NotificationKind
  first : AuditEvent
  more : List AuditEvent
  restarted : Option AuditEvent

def Subject.events (subject : Subject) : List AuditEvent := subject.first :: subject.more

/-- The subjects of one kind, of which there is one at least. -/
structure Group where
  first : Subject
  rest : List Subject

def Group.members (group : Group) : List Subject := group.first :: group.rest

/-- When the earliest of some subjects began. -/
def Group.began (group : Group) : Int :=
  group.rest.foldl (fun time subject => min time subject.first.at_.time) group.first.first.at_.time

/-! ### Messages -/

structure ServerRef where
  name : String
  slug : Option String
  deriving DecidableEq, Repr

structure NotificationMessage where
  kind : NotificationKind
  at_ : String
  tone : String
  title : String
  text : String
  server : Option ServerRef := none
  node : Option String := none
  count : Option Nat := none
  link : Option String := none
  details : List (String × String) := []
  deriving DecidableEq, Repr

/-- A piece of a sentence about something that may not be known. -/
def about (lead : String) (known : Option String) (tail : String) : String :=
  (known.map fun text => lead ++ text ++ tail).getD ""

def serverLink (context : Context) (event : AuditEvent) : Option String :=
  (truthy (event.server.bind ServerJoined.slug)).bind fun slug => link context ("/servers/" ++ slug)

def crashDetails (event : AuditEvent) (attempt : Option String) : List (String × String) :=
  (match event.server with
    | none => []
    | some server =>
      if server.oomKilled then [("Out of memory", "yes")]
      else (server.lastExitCode.map fun code => ("Exit code", toString code)).toList) ++
    (attempt.map fun attempt => ("Restart", attempt)).toList

def crashOfOne (subject : Subject) (at_ : String) (context : Context) : NotificationMessage :=
  let event := subject.first
  let name := nameOf event
  let node := truthy (nodeOf event)
  let times := subject.events.length
  let attempt := truthy (subject.restarted.bind fun row => change row "Attempt")
  { kind := .serverCrashed
    at_
    tone := if subject.restarted.isSome then "warning" else "danger"
    title := name ++ " crashed" ++ if 1 < times then s!" {times} times" else ""
    text := name ++ " stopped without being asked" ++ about " on " node "" ++ ". " ++
      if subject.restarted.isSome then "The panel restarted it" ++ about " (" attempt ")" ++ "."
      else "It is not back yet: the panel restarts a crashed server where automatic restart is " ++
        "on, and says if it gives up."
    server := some ⟨name, event.server.bind ServerJoined.slug⟩
    node
    count := some times
    link := serverLink context event
    details := crashDetails event attempt }

def crashOfMany (group : Group) (at_ : String) (context : Context) : NotificationMessage :=
  let size := group.members.length
  let nodes := (group.members.filterMap fun subject => truthy (nodeOf subject.first)).eraseDups
  let names := group.members.map fun subject => nameOf subject.first
  let node := if nodes.length = 1 then nodes.head? else none
  let onNode := about " on " node ""
  let restarted := (group.members.filter fun subject => subject.restarted.isSome).length
  { kind := .serverCrashed
    at_
    tone := if restarted = size then "warning" else "danger"
    title := s!"{size} servers crashed" ++ onNode
    text := listNames names ++ " stopped without being asked" ++ onNode ++ ". " ++
      if restarted = size then "The panel restarted all of them."
      else if 0 < restarted then s!"The panel restarted {restarted} of them."
      else "None is back yet; the panel restarts the ones with automatic restart on, and says " ++
        "if it gives up."
    node
    count := some size
    link := link context "/servers"
    details := [("Servers", toString size)] }

def crashMessage (group : Group) (context : Context) : NotificationMessage :=
  let at_ := isoText group.began
  if group.rest.isEmpty then crashOfOne group.first at_ context
  else crashOfMany group at_ context

/-- What the news about the panel itself is, from the words the row was written in. -/
def panelNews (cleanReason : String → String) (event : AuditEvent) (context : Context) :
    NotificationMessage :=
  let release := change event "Release"
  let state := (change event "State").getD "Update available"
  let agents := change event "Agents"
  let security := mentions "security" state.toList
  let agentsSay (words : String) := mentions words (agents.getD "").toList
  let behind := state != "Up to date" &&
    !(["unknown".toList, "supported".toList].contains (lowered state.toList))
  let named := truthy release
  { kind := .panelUpdate
    at_ := isoText event.at_.time
    tone := if security || agentsSay "security update" then "danger"
      else if mentions "recommended" state.toList || agentsSay "below the minimum" then "warning"
      else "info"
    title := if security then "Security update for Geeboard"
      else if behind then "Geeboard " ++ release.getD "has a new release" ++ " is out"
      else "A Geeboard agent is below its minimum"
    text := " ".intercalate
      ((if behind then [state ++ ": " ++ (named.map ("release " ++ ·)).getD "a newer release" ++
          " is available for this panel."] else []) ++
        ((truthy agents).map fun agents =>
          "Agents to upgrade on their machines: " ++ cleanReason agents ++ ".").toList ++
        ["Upgrading is the installer's re-run, which takes a dump first; docs/upgrading.md says " ++
          "how, and how to go back."])
    link := ((change event "Link").filter fun url => "https://".toList.isPrefixOf url.toList).or
      (link context "/updates")
    details := (named.map fun release => [("Release", release), ("State", state)]).getD [] }

def single (cleanReason : String → String) (subject : Subject) (context : Context) :
    NotificationMessage :=
  let event := subject.first
  let at_ := isoText event.at_.time
  let name := nameOf event
  let node := truthy (nodeOf event)
  let onNode := about " on " node ""
  let serverRef := some ⟨name, event.server.bind ServerJoined.slug⟩
  let reason (otherwise : String) := cleanReason ((change event "Reason").getD otherwise)
  match subject.kind with
  | .recoveryAbandoned =>
    { kind := subject.kind
      at_
      tone := "danger"
      title := name ++ " will not be restarted"
      text := "The panel gave up restarting " ++ name ++ onNode ++ ". " ++
        reason "It crashed again and again."
      server := serverRef
      node
      link := serverLink context event }
  | .leftStopped =>
    { kind := subject.kind
      at_
      tone := "warning"
      title := name ++ " was left stopped"
      text := name ++ onNode ++ " is stopped. " ++
        reason ("The panel did not stop it, and its restart policy does not start it again.")
      server := serverRef
      node
      link := serverLink context event }
  | .nodeUnreachable =>
    { kind := subject.kind
      at_
      tone := "danger"
      title := name ++ " is unreachable"
      text := "The panel has not heard from " ++ name ++ " for several minutes. Its servers are " ++
        "probably still running. The panel says when it is back."
      node := some name
      link := link context ("/nodes/" ++ encodeURIComponent name) }
  | .nodeRecovered =>
    { kind := subject.kind
      at_
      tone := "success"
      title := name ++ " is back"
      text := "The panel can reach " ++ name ++ " again."
      node := some name
      link := link context ("/nodes/" ++ encodeURIComponent name) }
  | .backupFailed =>
    { kind := subject.kind
      at_
      tone := "danger"
      title := "A backup of " ++ name ++ " failed"
      text := about "" (truthy event.target) ": " ++ reason "No reason was given."
      server := serverRef
      node
      link := link context "/backups" }
  | .backupDamaged =>
    { kind := subject.kind
      at_
      tone := "danger"
      title := "A backup of " ++ name ++ " is damaged"
      text := event.target.getD "An archive" ++ " is gone from its storage or no longer matches " ++
        "its checksum, so it cannot be restored. Make a new backup."
      server := serverRef
      node
      link := link context "/backups" }
  | .serverUpdate =>
    let from_ := (event.changes.get "Update").bind Change.from_
    let to_ := truthy (change event "Update")
    { kind := subject.kind
      at_
      tone := "info"
      title := "Update available for " ++ name
      text := name ++ about " runs " from_ "" ++
        (to_.map fun version => "; " ++ version ++ " is available").getD
          "; a newer version is available" ++
        ". Updating takes a backup first and can be rolled back."
      server := serverRef
      link := serverLink context event
      details := (to_.map fun version => ("Available", version)).toList }
  | .panelUpdate => panelNews cleanReason event context
  | .serverCrashed => crashMessage ⟨subject, []⟩ context

def grouped (kind : NotificationKind) (group : Group) (context : Context) : NotificationMessage :=
  let at_ := isoText group.began
  let size := group.members.length
  let names := listNames (group.members.map fun subject => nameOf subject.first)
  let said (tone title text path : String) : NotificationMessage :=
    { kind, at_, tone, title, text, count := some size, link := link context path }
  match kind with
  | .nodeUnreachable => said "danger" s!"{size} nodes are unreachable"
      (names ++ " have not been heard from for several minutes. Their servers are probably " ++
        "still running.") "/nodes"
  | .nodeRecovered => said "success" s!"{size} nodes are back"
      (names ++ " can be reached again.") "/nodes"
  | .recoveryAbandoned => said "danger" s!"{size} servers will not be restarted"
      ("The panel gave up restarting " ++ names ++ ". Somebody has to look at them.") "/servers"
  | .leftStopped => said "warning" s!"{size} servers were left stopped"
      (names ++ " are stopped. The panel did not stop them, and their restart policies do not " ++
        "start them again. Each one's page says what is known about why. Start them from the " ++
        "Servers page.") "/servers"
  | .backupFailed => said "danger" s!"{size} backups failed"
      ("Backups of " ++ names ++ " failed.") "/backups"
  | .backupDamaged => said "danger" s!"{size} backups are damaged"
      ("Archives of " ++ names ++ " are gone or no longer match their checksums. Make new " ++
        "backups.") "/backups"
  | .serverUpdate => said "info" s!"Updates are available for {size} servers"
      (names ++ " can be updated.") "/servers"
  | .panelUpdate => said "info" "Geeboard has news"
      ("More than one release note was written in a short time; the Updates page has the " ++
        "latest.") "/updates"
  | .serverCrashed => crashMessage group context

/-- The message of a kind: of its only subject, or of all of them together. -/
def messageOf (cleanReason : String → String) (context : Context)
    (entry : NotificationKind × Group) : NotificationMessage :=
  if entry.2.rest.isEmpty then single cleanReason entry.2.first context
  else grouped entry.1 entry.2 context

/-! ### Batches -/

def byTime (first second : AuditEvent) : Int := first.at_.time - second.at_.time

def byId (locale : Collation) (first second : AuditEvent) : Int :=
  locale.localeCompare first.id second.id

/-- The rows by their times, and by their ids where these are the same. -/
def ordered (sort : ArraySort AuditEvent) (locale : Collation) (events : List AuditEvent) :
    List AuditEvent :=
  sort.sort (thenBy byTime (byId locale)) events

/-- The server that a row says the panel restarted. -/
def restartedServer (event : AuditEvent) : Option String :=
  if event.action == "server.recovered" && event.actor == "Watchdog" &&
      (truthy (change event "Attempt")).isSome then event.server.map ServerJoined.id
  else none

/-- The restart of each server, the last one where there are more. -/
def restartsIn (rows : List AuditEvent) : Record String AuditEvent :=
  Record.ofEntries (rows.filterMap fun row => (restartedServer row).map fun id => (id, row))

/-- The nodes that went quiet. -/
def nodesDown (rows : List AuditEvent) : List String :=
  rows.filterMap fun row =>
    if row.action == NotificationKind.nodeUnreachable.action then truthy row.target else none

/-- One cause, one message: a backup that failed because the node is down is the node being
down. -/
def folded (down : List String) (kind : NotificationKind) (event : AuditEvent) : Bool :=
  kind == .backupFailed && unreachableReason event && (truthy (nodeOf event)).any down.contains

/-- What a row is about, as far as rows of its kind are told apart by it. -/
def aboutWhat (kind : NotificationKind) (event : AuditEvent) : String :=
  match kind with
  | .serverCrashed | .recoveryAbandoned | .serverUpdate =>
    (((event.server.map ServerJoined.id).or event.serverName).or event.target).getD "null"
  | .nodeUnreachable | .nodeRecovered => event.target.getD "null"
  | .leftStopped | .backupFailed | .backupDamaged | .panelUpdate => event.id

def keyOf (kind : NotificationKind) (event : AuditEvent) : String :=
  kind.action ++ ":" ++ aboutWhat kind event

/-- The kinds whose subjects take in later rows. -/
def merges (kind : NotificationKind) : Bool :=
  kind == .serverCrashed || kind == .nodeUnreachable || kind == .nodeRecovered

def Subject.of (restarts : Record String AuditEvent) (kind : NotificationKind)
    (event : AuditEvent) : Subject where
  kind
  first := event
  more := []
  restarted := if kind = .serverCrashed then
      event.server.bind fun server => restarts.get server.id
    else none

/-- A row of a kind is put with its subject, or begins one. -/
def place (restarts : Record String AuditEvent) (byKey : Record String Subject)
    (kind : NotificationKind) (event : AuditEvent) : Record String Subject :=
  match byKey.get (keyOf kind event) with
  | some existing =>
    if merges kind then
      byKey.set (keyOf kind event) { existing with more := existing.more ++ [event] }
    else byKey
  | none => byKey.set (keyOf kind event) (Subject.of restarts kind event)

/-- What a row becomes a message of, unless it is folded into an outage. -/
def told (down : List String) (event : AuditEvent) : Option NotificationKind :=
  (kindOf event.action).filter fun kind => !folded down kind event

/-- One subject for each thing that happened. -/
def subjectsOf (rows : List AuditEvent) : Record String Subject :=
  rows.foldl (fun byKey event =>
    ((told (nodesDown rows) event).map fun kind => place (restartsIn rows) byKey kind event).getD
      byKey) Record.empty

/-- One more subject of its kind. -/
def addSubject (byKind : Record NotificationKind Group) (subject : Subject) :
    Record NotificationKind Group :=
  byKind.set subject.kind (((byKind.get subject.kind).map fun group =>
    { group with rest := group.rest ++ [subject] }).getD ⟨subject, []⟩)

/-- The subjects of each kind together: a host that restarted took them all down. -/
def groupsOf (rows : List AuditEvent) : Record NotificationKind Group :=
  ((subjectsOf rows).entries.map Prod.snd).foldl addSubject Record.empty

def byText (locale : Collation) (first second : NotificationMessage) : Int :=
  locale.localeCompare first.at_ second.at_

/-- The messages for a batch of rows, in the order of the texts of their times. -/
def messagesFor (sortRows : ArraySort AuditEvent) (sort : ArraySort NotificationMessage)
    (locale : Collation) (cleanReason : String → String) (events : List AuditEvent)
    (context : Context) : List NotificationMessage :=
  sort.sort (byText locale) ((groupsOf (ordered sortRows locale events)).entries.map
    (messageOf cleanReason context))

end Geeboard.Notify.Rules
