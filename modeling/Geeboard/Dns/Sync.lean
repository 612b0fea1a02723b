/-
This file keeps a server's DNS records: it makes them say what its node and its game
say, and takes them away.

A run asks the provider one call at a time, and any call may fail, with what it was
to do done or not. What went wrong is kept on the row of the record and said back. A
row remembers the name its record was written at and the provider's id for it, when
there is one; a record is taken away by that id, else by its name and kind.

Beside what the panel and the provider hold, the state keeps what was done to records
and addresses, in the order it was done, which nothing reads.
-/

import Geeboard.Dns.Rules
import Geeboard.Panel.State

namespace Geeboard.Dns

open Panel (ServerState)

/-! ### The panel and the provider -/

structure Node where
  id : String
  name : String
  facts : NodeAddressFacts
  deriving DecidableEq, Repr

/-- What a server's game asks for: a service, and the port it is on from the server's first. -/
structure SrvPlan where
  service : String
  protocol : String
  offset : Nat
  deriving DecidableEq, Repr

structure Server where
  id : ServerId
  name : String
  host : String
  port : Nat
  nodeId : String
  state : ServerState := .running
  plan : Option SrvPlan := none
  rows : List DnsRow := []
  deriving DecidableEq, Repr

/-- The record this server's game asks for, with the port of the block the server holds. -/
def srvFor (server : Server) : Option SrvFacts :=
  server.plan.map fun plan => ⟨plan.service, plan.protocol, server.port + plan.offset⟩

/-- Something a run did to a record or an address. -/
inductive Touch where
  /-- A record was written again, which said what was wanted or not. -/
  | overwritten (server : ServerId) (before : DnsRecord) (says_ : Bool)
  /-- A record was removed, which was adopted at some time or not. -/
  | removed (server : ServerId) (before : DnsRecord) (adopted : Bool)
  /-- A subdomain's address was cleared, which other servers used. -/
  | cleared (server : ServerId) (base : String) (others : List ServerId)
  deriving DecidableEq, Repr

structure World where
  /-- The provider's records, as it lists them, and the next id it gives. -/
  records : List DnsRecord := []
  next : Nat := 0
  nodes : List Node := []
  servers : List Server := []
  /-- When the poller may ask the provider again. -/
  backoffUntil : Nat := 0
  /-- The records that were adopted, and those whose comment somebody else changed. -/
  adopted : List Nat := []
  edited : List Nat := []
  log : List Touch := []
  deriving DecidableEq, Repr

/-- A call that failed: why, and whether the provider could not be asked at all. -/
structure Failure where
  message : String
  unreachable : Bool
  deriving DecidableEq, Repr

/-- What becomes of a call: it fails or not, and a failed one may have done what it was to do. -/
structure Fate where
  failure : Option Failure := none
  lost : Bool := false
  deriving DecidableEq, Repr

def Fate.happens (fate : Fate) : Bool := fate.failure.isNone || fate.lost

/-- The calls made for one record in one run. -/
inductive Call where
  | read | write | find | remove
  deriving DecidableEq, Repr

abbrev Fates := RecordKind → Call → Fate

/-! ### The provider's calls -/

/-- The records a provider that can be read has at a name. -/
def recordsAt (world : World) (name : String) : List DnsRecord :=
  world.records.filter fun record => record.name == name

def readRecords (kind : DnsKind) (world : World) (name : String) (fate : Fate) :
    Except Failure (List DnsRecord) :=
  match fate.failure with
  | some failure => if kind.reads then .error failure else .ok []
  | none => .ok (if kind.reads then recordsAt world name else [])

/-- The other servers whose name is under a subdomain of duckdns.org. -/
def underBase (world : World) (server : ServerId) (base : String) : List Server :=
  let whole := (base ++ ".duckdns.org").toList
  world.servers.filter fun other =>
    other.id != server &&
      (other.host.toList == whole || ('.' :: whole).isSuffixOf other.host.toList)

/-- A record that is not there any more cannot be replaced or removed. -/
def notThere : Failure := ⟨"Cloudflare answered 404.", false⟩

/-- Removing the record of an id. -/
def deleteRecord (world : World) (server : ServerId) (id : Nat) (fate : Fate) :
    Option Failure × World :=
  match world.records.find? fun record => record.id == id with
  | none => (some (fate.failure.getD notThere), world)
  | some record =>
    (fate.failure,
      if fate.happens then
        { world with
          records := world.records.filter fun record => record.id != id
          log := world.log ++ [.removed server record (world.adopted.contains id)] }
      else world)

/-- Clearing a subdomain: both its addresses go. -/
def clearBase (world : World) (server : ServerId) (base : String) (fate : Fate) :
    Option Failure × World :=
  (fate.failure,
    if fate.happens then
      { world with
        log := world.log ++
          [.cleared server base ((underBase world server base).map fun other => other.id)] }
    else world)

/-- Removing a record, by its id where it has one. -/
def removeRecord (kind : DnsKind) (world : World) (server : ServerId) (recordKind : RecordKind)
    (name : String) (id : Option Nat) (fates : Fates) : Option Failure × World :=
  match kind with
  | .cloudflare =>
    match id with
    | some id => deleteRecord world server id (fates recordKind .remove)
    | none =>
      -- A record adopted or written before its id was kept is found by name and kind.
      match readRecords kind world name (fates recordKind .find) with
      | .error failure => (some failure, world)
      | .ok found =>
        match found.find? fun record => record.type == recordKind.text with
        | none => (none, world)
        | some record => deleteRecord world server record.id (fates recordKind .remove)
  | .duckdns =>
    match duckBase name with
    | none => (none, world)
    | some base => clearBase world server base (fates recordKind .remove)
  | .webhook => ((fates recordKind .remove).failure, world)

/-- Writing a record anew. -/
def postRecord (world : World) (wanted : WantedRecord) (marker : String) (fate : Fate) :
    Except Failure (Option Nat) × World :=
  (match fate.failure with
    | some failure => .error failure
    | none => .ok (some world.next),
    if fate.happens then
      { world with
        records := world.records ++
          [⟨world.next, wanted.kind.text, wanted.name, wanted.content, marker⟩]
        next := world.next + 1 }
    else world)

/-- Writing over the record of an id. One that is not marked is adopted by it. -/
def putRecord (spell : String → Option String) (world : World) (server : ServerId)
    (wanted : WantedRecord) (marker : String) (id : Nat) (fate : Fate) :
    Except Failure (Option Nat) × World :=
  match world.records.find? fun record => record.id == id with
  | none => (.error (fate.failure.getD notThere), world)
  | some record =>
    (match fate.failure with
      | some failure => .error failure
      | none => .ok (some id),
      if fate.happens then
        { world with
          records := world.records.map fun other =>
            if other.id = id then ⟨id, wanted.kind.text, wanted.name, wanted.content, marker⟩
            else other
          adopted := if record.comment = marker then world.adopted else id :: world.adopted
          log := world.log ++ [.overwritten server record (saysWanted spell record wanted)] }
      else world)

/-- Writing a record, over the one of an id when there is one. -/
def writeRecord (spell : String → Option String) (kind : DnsKind) (world : World)
    (server : ServerId) (wanted : WantedRecord) (id : Option Nat) (fate : Fate) :
    Except Failure (Option Nat) × World :=
  match kind with
  | .cloudflare =>
    match id with
    | none => postRecord world wanted (markerFor server) fate
    | some id => putRecord spell world server wanted (markerFor server) id fate
  | .duckdns =>
    if wanted.kind = .srv then (.error ⟨"DuckDNS cannot hold an SRV record.", false⟩, world)
    else
      match duckBase wanted.name, fate.failure with
      | none, _ => (.error ⟨s!"{wanted.name} is not under a duckdns.org subdomain.", false⟩, world)
      | some _, some failure => (.error failure, world)
      | some _, none => (.ok none, world)
  | .webhook =>
    match fate.failure with
    | some failure => (.error failure, world)
    | none => (.ok none, world)

/-! ### Rows -/

/-- The rows of a server, changed. -/
def withRows (world : World) (server : ServerId) (change : List DnsRow → List DnsRow) : World :=
  { world with
    servers := world.servers.map fun other =>
      if other.id = server then { other with rows := change other.rows } else other }

/-- What is kept of a record that was written: its id and what it says. -/
structure Kept where
  recordId : Option Nat
  content : String

/-- One row of a kind, made or changed: with an error, or with what was written. -/
def upsert (wanted : WantedRecord) (now : Nat) (outcome : Except String Kept)
    (rows : List DnsRow) : List DnsRow :=
  if rows.any fun row => row.kind == wanted.kind then
    rows.map fun row =>
      if row.kind ≠ wanted.kind then row
      else match outcome with
        | .error reason =>
          { row with name := wanted.name, checkedAt := now, error := some reason }
        | .ok kept =>
          { row with
            name := wanted.name, checkedAt := now, error := none, recordId := kept.recordId,
            content := some kept.content }
  else
    rows ++ [match outcome with
      | .error reason => ⟨wanted.kind, wanted.name, none, none, now, some reason⟩
      | .ok kept => ⟨wanted.kind, wanted.name, kept.recordId, some kept.content, now, none⟩]

/-! ### One server -/

/-- A run for one server: what it loaded, and the fates of its calls. -/
structure Sync where
  kind : DnsKind
  spell : String → Option String
  server : Server
  node : Node
  siblings : List Server
  fates : Fates
  now : Nat

/-- What became of a record. -/
structure Written where
  record : WantedRecord
  set_ : Bool
  unreachable : Bool := false
  reason : Option String := none
  adopted : Bool := false
  deriving DecidableEq, Repr

/-- A record that was not written. -/
def Sync.fail (sync : Sync) (world : World) (wanted : WantedRecord) (reason : String)
    (unreachable : Bool) : Written × World :=
  ({ record := wanted, set_ := false, unreachable, reason := some reason },
    withRows world sync.server.id (upsert wanted sync.now (.error reason)))

/-- A record that says what it should. -/
def Sync.keep (sync : Sync) (world : World) (wanted : WantedRecord) (id : Option Nat)
    (adopted : Bool) : Written × World :=
  ({ record := wanted, set_ := true, adopted },
    withRows world sync.server.id (upsert wanted sync.now (.ok ⟨id, wanted.content⟩)))

/-- The id a decision is about. -/
def DnsDecision.id : DnsDecision → Option Nat
  | .adopt id => some id
  | .update id => some id
  | .nothing id => id
  | _ => none

/-- Doing what was decided. -/
def Sync.carryOut (sync : Sync) (world : World) (wanted : WantedRecord) (force : Bool)
    (decision : DnsDecision) : Written × World :=
  let adopts := match decision with
    | .adopt _ => true
    | _ => false
  let leaves := match decision with
    | .nothing _ => !force
    | _ => false
  match decision with
  | .refuse reason => sync.fail world wanted reason false
  | _ =>
    if leaves then sync.keep world wanted decision.id adopts
    else
      match writeRecord sync.spell sync.kind world sync.server.id wanted decision.id
          (sync.fates wanted.kind .write) with
      | (.error failure, world) => sync.fail world wanted failure.message failure.unreachable
      | (.ok id, world) => sync.keep world wanted id adopts

/-- Reading what is at the name, deciding, and writing. -/
def Sync.settle (sync : Sync) (world : World) (wanted : WantedRecord) (force : Bool)
    (row : Option DnsRow) : Written × World :=
  match readRecords sync.kind world wanted.name (sync.fates wanted.kind .read) with
  | .error failure => sync.fail world wanted failure.message failure.unreachable
  | .ok existing =>
    let known := !sync.kind.reads && !force && row.any fun row =>
      row.name == wanted.name && row.content == some wanted.content && row.error.isNone
    sync.carryOut world wanted force
      (if known then .nothing (row.bind DnsRow.recordId)
        else decideRecord sync.spell existing wanted (markerFor sync.server.id))

/-- Whether a server's record of a kind is written. -/
def holds (server : Server) (kind : RecordKind) : Bool :=
  server.rows.any fun row => row.kind == kind && row.content.isSome && row.error.isNone

/-- The subdomain's address is shared: who holds it keeps it, and who is on the same node has
nothing to write. -/
def Sync.share (sync : Sync) (world : World) (wanted : WantedRecord) (force : Bool)
    (row : Option DnsRow) : Written × World :=
  if sync.kind = .duckdns && !sync.siblings.isEmpty && wanted.kind ≠ .srv then
    match (sync.siblings.filter fun other => other.nodeId != sync.server.nodeId).find?
        fun other => holds other wanted.kind with
    | some holder =>
      let base := (duckBase sync.server.host).getD ""
      let node := ((world.nodes.find? fun node => node.id == holder.nodeId).map Node.name).getD ""
      sync.fail world wanted
        (s!"{base}.duckdns.org already points at {node}, for {holder.name}. A DuckDNS name has " ++
          s!"one address, so servers on {sync.node.name} need a subdomain of their own, made on " ++
          "duckdns.org") false
    | none =>
      if sync.siblings.any fun other => other.nodeId == sync.server.nodeId &&
          other.rows.any fun row => row.kind == wanted.kind &&
            row.content == some wanted.content && row.error.isNone then
        sync.keep world wanted none false
      else sync.settle world wanted force row
  else sync.settle world wanted force row

/-- Whether a record is still at a name that is not the wanted one. -/
def movedAway (kind : DnsKind) (row : DnsRow) (wanted : WantedRecord) : Bool :=
  row.name != wanted.name && !(kind = .duckdns && sameDuckBase row.name wanted.name)

/-- One record: what is at the old name is taken away, and the new one written. -/
def Sync.one (sync : Sync) (world : World) (wanted : WantedRecord) (force : Bool)
    (down : Option String) : Written × World :=
  let row := sync.server.rows.find? fun row => row.kind == wanted.kind
  match down with
  | some reason => sync.fail world wanted reason true
  | none =>
    match row.filter fun row => movedAway sync.kind row wanted with
    | none => sync.share world wanted force row
    | some old =>
      match removeRecord sync.kind world sync.server.id wanted.kind old.name old.recordId
          sync.fates with
      | (some failure, world) => sync.fail world wanted failure.message failure.unreachable
      | (none, world) => sync.share world wanted force row

/-- Taking one record the panel kept away from where it is, and forgetting it. -/
def Sync.removeRow (sync : Sync) (world : World) (row : DnsRow) : Option Failure × World :=
  let forget := fun world =>
    withRows world sync.server.id fun rows => rows.filter fun other => other.kind != row.kind
  if sync.kind = .duckdns && !sync.siblings.isEmpty then (none, forget world)
  else
    match removeRecord sync.kind world sync.server.id row.kind row.name row.recordId
        sync.fates with
    | (none, world) => (none, forget world)
    | (some failure, world) =>
      (some failure, withRows world sync.server.id fun rows => rows.map fun other =>
        if other.kind = row.kind then
          { other with checkedAt := sync.now, error := some failure.message }
        else other)

/-- The records of kinds that are not wanted any more, taken away one after the other. Whether the
others have to be written again is handed on. -/
def Sync.dropUnwanted (sync : Sync) :
    World → Bool → List DnsRow → Except Failure Bool × World
  | world, force, [] => (.ok force, world)
  | world, force, row :: rest =>
    match sync.removeRow world row with
    | (some failure, world) => (.error failure, world)
    | (none, world) =>
      sync.dropUnwanted world (force || sync.kind = .duckdns && sync.siblings.isEmpty) rest

/-- The wanted records, one after the other. A provider that could not be asked is not asked
again. -/
def Sync.writeAll (sync : Sync) (force : Bool) :
    World → Option String → List WantedRecord → List Written × World
  | world, _, [] => ([], world)
  | world, down, wanted :: rest =>
    let (written, world) := sync.one world wanted force down
    let down := if written.unreachable && down.isNone then written.reason else down
    let (others, world) := sync.writeAll force world down rest
    (written :: others, world)

inductive DnsState where
  | none_ | outside | noAddress | set_ | failed
  deriving DecidableEq, Repr

structure DnsSyncResult where
  state : DnsState
  unreachable : Bool := false
  deriving DecidableEq, Repr

/-- The other servers that share a host's one address. -/
def sharingBase (kind : DnsKind) (world : World) (server : ServerId) (host : String) :
    List Server :=
  match if kind = .duckdns then duckBase host else none with
  | none => []
  | some base => underBase world server base

/-- The rows of kinds that are not wanted. -/
def unwantedRows (rows : List DnsRow) (wanted : List WantedRecord) : List DnsRow :=
  rows.filter fun row => !wanted.any fun record => record.kind == row.kind

section Runs

variable (kind : DnsKind) (zone : String) (spell : String → Option String)

/-- Making a server's records say what its node and its game say. -/
def syncLoaded (world : World) (server : Server) (node : Node) (fates : Fates) (now : Nat)
    (resend : Bool) : DnsSyncResult × World :=
  if !coveredBy kind zone server.host then
    ({ state := .outside }, withRows world server.id fun _ => [])
  else
    match wantedRecords server.host node.facts kind (srvFor server) with
    | .error _ =>
      ({ state := .noAddress }, withRows world server.id fun rows =>
        rows.map fun row => { row with checkedAt := now, error := none })
    | .ok wanted =>
      let sync : Sync := ⟨kind, spell, server, node, sharingBase kind world server.id server.host,
        fates, now⟩
      match sync.dropUnwanted world (resend && !kind.reads) (unwantedRows server.rows wanted) with
      | (.error failure, world) => ({ state := .failed, unreachable := failure.unreachable }, world)
      | (.ok force, world) =>
        let (written, world) := sync.writeAll force world none wanted
        (match written.find? fun result => !result.set_ with
          | some failed => { state := .failed, unreachable := failed.unreachable }
          | none => { state := .set_ }, world)

def nodeOf (world : World) (server : Server) : Option Node :=
  world.nodes.find? fun node => node.id == server.nodeId

def syncServerDns (world : World) (id : ServerId) (fates : Fates) (now : Nat) (resend : Bool) :
    DnsSyncResult × World :=
  match world.servers.find? fun server => server.id == id with
  | none => ({ state := .none_ }, world)
  | some server =>
    match nodeOf world server with
    | none => ({ state := .none_ }, world)
    | some node => syncLoaded kind zone spell world server node fates now resend

/-- The rows of a server, let go of one after the other. One clear takes both families. -/
def Sync.forgetRows (sync : Sync) : World → Bool → List DnsRow → World
  | world, _, [] => world
  | world, true, row :: rest =>
    sync.forgetRows (withRows world sync.server.id fun rows =>
      rows.filter fun other => other.kind != row.kind) true rest
  | world, false, row :: rest =>
    let (failure, world) := sync.removeRow world row
    sync.forgetRows world (failure.isNone && sync.kind = .duckdns) rest

/-- Removing a server's records, before the server goes or after its host changed. -/
def forgetServerDns (world : World) (id : ServerId) (host : String) (fates : Fates) (now : Nat) :
    World :=
  match world.servers.find? fun server => server.id == id with
  | none => world
  | some server =>
    if !coveredBy kind zone host then world
    else
      let sync : Sync := ⟨kind, spell, { server with host := host }, ⟨"", "", {}⟩,
        sharingBase kind world id host, fates, now⟩
      sync.forgetRows world false server.rows

/-- The servers of a pass, one after the other, as the pass loaded them. -/
def reconcileFrom (fates : ServerId → Fates) (now : Nat) : World → List (Server × Node) → World
  | world, [] => world
  | world, (server, node) :: rest =>
    if !dnsNeedsSync server.host server.rows kind zone node.facts (srvFor server) now then
      reconcileFrom fates now world rest
    else
      let (result, world) :=
        syncLoaded kind zone spell world server node (fates server.id) now false
      if result.unreachable then { world with backoffUntil := now + DNS_RETRY_MS }
      else reconcileFrom fates now world rest

/-- The servers a pass looks at, with their nodes. -/
def reconciled (world : World) : List (Server × Node) :=
  (world.servers.filter fun server =>
    !(server.state = .creating || server.state = .deleting || server.state = .migrating)).filterMap
      fun server => (nodeOf world server).map fun node => (server, node)

/-- One pass over every server whose records are the panel's to keep. -/
def reconcileDns (world : World) (fates : ServerId → Fates) (now : Nat) : World :=
  if now < world.backoffUntil then world
  else reconcileFrom kind zone spell fates now world (reconciled world)

/-! ### Everything that happens -/

inductive Event where
  | sync (id : ServerId) (fates : Fates) (now : Nat) (resend : Bool)
  | forget (id : ServerId) (host : String) (fates : Fates) (now : Nat)
  | reconcile (fates : ServerId → Fates) (now : Nat)
  | changeHost (id : ServerId) (host : String)
  | move (id : ServerId) (nodeId : String) (port : Nat)
  | turn (id : ServerId) (state : ServerState)
  | readdress (nodeId : String) (facts : NodeAddressFacts)
  | create (server : Server)
  | delete (id : ServerId)
  /-- Somebody else makes a record, removes one, or changes one where it is. -/
  | place (type name content comment : String)
  | take (id : Nat)
  | edit (id : Nat) (type name content comment : String)

/-- A server, changed. -/
def withServer (world : World) (id : ServerId) (change : Server → Server) : World :=
  { world with
    servers := world.servers.map fun server => if server.id = id then change server else server }

/-- What an event does. A host is one server's. -/
def step (world : World) : Event → Option World
  | .sync id fates now resend => some (syncServerDns kind zone spell world id fates now resend).2
  | .forget id host fates now => some (forgetServerDns kind zone spell world id host fates now)
  | .reconcile fates now => some (reconcileDns kind zone spell world fates now)
  | .changeHost id host =>
    if world.servers.any fun server => server.host == host then none
    else some (withServer world id fun server => { server with host })
  | .move id nodeId port => some (withServer world id fun server => { server with nodeId, port })
  | .turn id state => some (withServer world id fun server => { server with state })
  | .readdress nodeId facts =>
    some { world with
      nodes := world.nodes.map fun node => if node.id = nodeId then { node with facts } else node }
  | .create server =>
    if world.servers.any fun other => other.id == server.id || other.host == server.host then none
    else some { world with servers := world.servers ++ [{ server with rows := [] }] }
  | .delete id => some { world with servers := world.servers.filter fun server => server.id != id }
  | .place type name content comment =>
    some { world with
      records := world.records ++ [⟨world.next, type, name, content, comment⟩]
      next := world.next + 1 }
  | .take id => some { world with records := world.records.filter fun record => record.id != id }
  | .edit id type name content comment =>
    some { world with
      records := world.records.map fun record =>
        if record.id = id then ⟨id, type, name, content, comment⟩ else record
      edited := id :: world.edited }

end Runs

end Geeboard.Dns
