/-
This file is about the container an agent makes for a spec: which ports it publishes,
and which directories of the node it binds.

The ports of a request are checked by the port of the node and the transport, and
published under the port of the container and the transport. So two ports of one spec
can meet under one key, and then the later one takes the place of the earlier. A cache
directory is named for its mount point, with dashes for the separators, and a mount
point may have dashes of its own.
-/

import Geeboard.Agent.Requests
import Geeboard.Systems.Results
import Geeboard.Text.Paths

namespace Geeboard.Agent

open Games List
open Text (PlainJson Record memberOf)
open Systems

/-! ### Directories on the node -/

/-- What an agent is set to: the directory it runs in, and the data root, which is read from
there. -/
structure EngineSettings where
  managedLabel : String
  workingDirectory : Text.Place
  dataRoot : List Char
  containerPrefix : String := "geeboard-"

/-- The directory all servers of the agent are in. -/
def EngineSettings.root (settings : EngineSettings) : Text.Place :=
  settings.workingDirectory.resolve settings.dataRoot

/-- The directory a server owns. -/
def serverRoot (settings : EngineSettings) (serverId : String) : Except String Text.Place :=
  if SERVER_ID serverId.toList then .ok (settings.root.resolve serverId.toList)
  else .error "invalid server id"

/-- Where a server's cache directories live: beside its data, never inside. -/
def cacheRoot (settings : EngineSettings) (serverId : String) : Except String Text.Place := do
  let server ← serverRoot settings serverId
  pure ((server.parent.resolve ".cache".toList).resolve (server.parts.getLast?.getD []))

/-- A mount point as the name of a directory. -/
def dashed (mountPoint : List Char) : List Char :=
  (if mountPoint.head? = some '/' then mountPoint.tail else mountPoint).map fun char =>
    if char = '/' then '-' else char

def cacheDirFor (settings : EngineSettings) (serverId mountPoint : String) :
    Except String Text.Place := do
  let root ← cacheRoot settings serverId
  -- The name has no separator, so joining it is resolving it.
  pure (root.resolve (dashed mountPoint.toList))

/-! ### Containers -/

/-- A port of the container on a transport, which Docker writes as `25565/tcp`. -/
abbrev PortKey := Int × Protocol

/-- Where a port of a container is published: a port of the node, and the interface when it is
not every one. -/
structure HostBinding where
  hostPort : Int
  hostIp : Option String
  deriving DecidableEq, Repr

/-- A directory of the node, and where the container finds it. -/
structure Bind where
  directory : Text.Place
  mountPoint : String
  deriving DecidableEq

structure HostConfig where
  portBindings : Record PortKey (List HostBinding)
  binds : List Bind
  memory : Int
  memorySwap : Int
  nanoCpus : Int
  restartPolicy : String
  pidsLimit : Nat
  capDrop : List String
  logConfig : String × Record String String

structure ContainerCreateOptions where
  name : String
  image : String
  labels : Record String String
  env : List String
  cmd : Option (List (List Char))
  openStdin : Bool
  stdinOnce : Bool
  tty : Bool
  exposedPorts : Record PortKey Unit
  hostConfig : HostConfig

def containerName (name containerPrefix : String) : String := containerPrefix ++ name

def PortSpec.binding (port : PortSpec) : HostBinding :=
  ⟨port.host, if port.loopback then some "127.0.0.1" else none⟩

/-- Each port of a spec on each of its transports, with the key it is published under. -/
def CreateSpec.listed (spec : CreateSpec) : List (PortKey × PortSpec) :=
  spec.ports.flatMap fun port =>
    (transports port.protocol).map fun transport => ((port.container, transport), port)

/-- A cache of a server, bound at its mount point. -/
def cacheBind (settings : EngineSettings) (serverId mountPoint : String) : Except String Bind := do
  let directory ← cacheDirFor settings serverId mountPoint
  pure ⟨directory, mountPoint⟩

/-- The whole definition of a container. -/
def containerOptions (spec : CreateSpec) (settings : EngineSettings) :
    Except String ContainerCreateOptions := do
  let root ← serverRoot settings spec.serverId
  let caches ← spec.cachePaths.mapM (cacheBind settings spec.serverId)
  pure {
    name := containerName spec.name settings.containerPrefix
    image := spec.image
    labels := Record.ofEntries [(settings.managedLabel, spec.serverId)]
    env := spec.env.entries.map fun entry => entry.1 ++ "=" ++ String.ofList entry.2
    cmd := if spec.command.isEmpty then none else some spec.command
    openStdin := true
    stdinOnce := false
    tty := false
    exposedPorts := Record.ofEntries (spec.listed.map fun one => (one.1, ()))
    hostConfig := {
      portBindings := Record.ofEntries (spec.listed.map fun one => (one.1, [one.2.binding]))
      binds := ⟨root, spec.dataPath⟩ :: caches
      memory := spec.memoryMb * 1024 * 1024
      memorySwap := spec.memoryMb * 1024 * 1024
      nanoCpus := spec.cpuLimit * 10 ^ 7
      restartPolicy := "no"
      pidsLimit := 512
      capDrop := ["MKNOD"]
      logConfig := ("json-file", Record.ofEntries [("max-size", "10m"), ("max-file", "3")]) } }

/-! ### What an accepted request says -/

/-- The ports of the node that an accepted list names, each with its transports, are none of
those seen before, and no two ports of the list share one. -/
theorem told_apart_of_parsePortsFrom {seen : List (Int × Protocol)} {entries : List PlainJson}
    {ports : List PortSpec} (parsed : parsePortsFrom seen entries = .ok ports) :
    (∀ port ∈ ports, ∀ transport ∈ transports port.protocol,
      (port.host, transport) ∉ seen) ∧
    ∀ first ∈ ports, ∀ second ∈ ports, ∀ transport ∈ transports first.protocol,
      transport ∈ transports second.protocol → first.host = second.host → first = second := by
  induction entries generalizing seen ports with
  | nil =>
    cases parsed
    exact ⟨fun _ member => absurd member not_mem_nil,
      fun _ member => absurd member not_mem_nil⟩
  | cons entry entries inductionHypothesis =>
    unfold parsePortsFrom at parsed
    obtain ⟨port, _, rest⟩ := ok_of_bind parsed
    dsimp only at rest
    split at rest
    · cases rest
    · next fresh =>
      obtain ⟨others, there, same⟩ := ok_of_bind rest
      cases same
      obtain ⟨apart, alone⟩ := inductionHypothesis there
      have own : ∀ transport ∈ transports port.protocol, (port.host, transport) ∉ seen := by
        intro transport member inside
        have missed := find?_eq_none.mp fresh (port.host, transport)
          (List.mem_map_of_mem member)
        exact missed (contains_iff_mem.mpr inside)
      have taken : ∀ other ∈ others, ∀ transport ∈ transports port.protocol,
          transport ∈ transports other.protocol → port.host ≠ other.host := by
        intro other member transport here on same
        refine apart other member transport on (mem_append_right _ ?_)
        rw [← same]
        exact List.mem_map_of_mem here
      refine ⟨forall_mem_cons.mpr ⟨own, fun other member transport on inside =>
        apart other member transport on (mem_append_left _ inside)⟩, ?_⟩
      intro first firstMember second secondMember transport one other same
      obtain rfl | earlier := mem_cons.mp firstMember
      · obtain rfl | later := mem_cons.mp secondMember
        · rfl
        · exact absurd same (taken second later transport one other)
      · obtain rfl | later := mem_cons.mp secondMember
        · exact absurd same.symm (taken first earlier transport other one)
        · exact alone first earlier second later transport one other same

/-- Two ports of an accepted list that share a port of the node and a transport are one. -/
theorem port_eq_of_parsePorts {value : Option PlainJson} {ports : List PortSpec}
    (parsed : parsePorts value = .ok ports) {first second : PortSpec} (here : first ∈ ports)
    (there : second ∈ ports) {transport : Protocol}
    (one : transport ∈ transports first.protocol) (other : transport ∈ transports second.protocol)
    (same : first.host = second.host) : first = second := by
  unfold parsePorts at parsed
  split at parsed
  · split at parsed
    · cases parsed
    · split at parsed
      · cases parsed
      · exact (told_apart_of_parsePortsFrom parsed).2 first here second there transport one other
          same
  · cases parsed

/-- What the parts of an accepted request passed. -/
structure Accepted (spec : CreateSpec) (body : List (String × PlainJson)) : Prop where
  serverId : SERVER_ID spec.serverId.toList = true
  ports : parsePorts (memberOf body "ports") = .ok spec.ports
  dataPath : parseDataPath (memberOf body "dataPath") = .ok spec.dataPath
  cachePaths : parseCachePaths (memberOf body "cachePaths") spec.dataPath = .ok spec.cachePaths

theorem accepted_of_parseCreate {body : List (String × PlainJson)} {spec : CreateSpec}
    (parsed : parseCreate body = .ok spec) : Accepted spec body := by
  unfold parseCreate at parsed
  obtain ⟨serverId, _, parsed⟩ := ok_of_bind parsed
  split at parsed
  · cases parsed
  next known =>
  obtain ⟨name, _, parsed⟩ := ok_of_bind parsed
  split at parsed
  · cases parsed
  obtain ⟨image, _, parsed⟩ := ok_of_bind parsed
  obtain ⟨reference, _, parsed⟩ := ok_of_bind parsed
  obtain ⟨ports, portsParsed, parsed⟩ := ok_of_bind parsed
  obtain ⟨memoryMb, _, parsed⟩ := ok_of_bind parsed
  obtain ⟨cpuLimit, _, parsed⟩ := ok_of_bind parsed
  obtain ⟨env, _, parsed⟩ := ok_of_bind parsed
  obtain ⟨dataPath, dataParsed, parsed⟩ := ok_of_bind parsed
  obtain ⟨cachePaths, cacheParsed, parsed⟩ := ok_of_bind parsed
  obtain ⟨command, _, parsed⟩ := ok_of_bind parsed
  cases parsed
  exact ⟨by simpa using known, portsParsed, dataParsed, cacheParsed⟩

/-! ### Directories by name -/

theorem valid_isPart {serverId : String} (valid : SERVER_ID serverId.toList = true) :
    Text.IsPart serverId.toList ∧ '.' ∉ serverId.toList := by
  obtain ⟨⟨some_, _⟩, chars⟩ : (serverId.toList ≠ [] ∧ serverId.toList.length ≤ 128) ∧
      ∀ char ∈ serverId.toList, (char.isAlphanum = true ∨ char = '_') ∨ char = '-' := by
    simpa [SERVER_ID] using valid
  have other : ∀ char ∈ serverId.toList, char ≠ '/' ∧ char ≠ '.' := by
    intro char member
    obtain (letter | rfl) | rfl := chars char member
    · refine ⟨?_, ?_⟩
      · rintro rfl
        exact absurd letter (by decide)
      · rintro rfl
        exact absurd letter (by decide)
    · decide
    · decide
  have noDot : '.' ∉ serverId.toList := fun dot => (other '.' dot).2 rfl
  refine ⟨⟨some_, fun slash => (other '/' slash).1 rfl, fun dot => ?_, fun dots => ?_⟩, noDot⟩
  · exact noDot (by rw [dot]; decide)
  · exact noDot (by rw [dots]; decide)

/-- A name leads from a directory to the entry of that name. -/
theorem resolve_part (start : Text.Place) {part : List Char} (proper : Text.IsPart part) :
    (start.resolve part).parts = start.parts ++ [part] := by
  have leads := start.resolve_joined [part] (cons_ne_nil _ _)
    fun other member => by rw [mem_singleton.mp member]; exact proper
  rw [Text.joined, intercalate_singleton] at leads
  exact leads

theorem mount_of_parseDataPath {value : Option PlainJson} {path : String}
    (parsed : parseDataPath value = .ok path) : Text.isMountPath path.toList = true := by
  unfold parseDataPath at parsed
  split at parsed
  · cases parsed
    decide
  · cases parsed
    decide
  · dsimp only at parsed
    split at parsed
    · cases parsed
    · next known =>
      split at parsed
      · cases parsed
      · cases parsed
        rw [String.toList_ofList]
        simp only [Bool.or_eq_true, not_or, Bool.not_eq_true', Bool.not_eq_false] at known
        exact known.1
  · cases parsed

/-- A mount point begins with a separator and a letter or a digit. -/
theorem begins_of_mount {path : List Char} (mount : Text.isMountPath path = true) :
    ∃ char rest, path = '/' :: char :: rest ∧ char.isAlphanum = true := by
  unfold Text.isMountPath at mount
  split at mount
  · next segments split =>
    obtain ⟨⟨some_, _⟩, each⟩ : (1 ≤ segments.length ∧ segments.length ≤ 5) ∧
        ∀ segment ∈ segments, Text.isSegment segment = true := by
      simpa using mount
    obtain ⟨segment, others, rfl⟩ := exists_cons_of_length_pos some_
    obtain ⟨char, chars, rfl, letter, _⟩ :=
      Text.exists_of_beginsThen (each segment mem_cons_self)
    have joined : ['/'].intercalate (path.splitOn '/') = path := intercalate_splitOn '/'
    rw [split, intercalate_cons_cons] at joined
    rw [← joined]
    cases others with
    | nil => exact ⟨char, chars, by rw [intercalate_singleton]; rfl, letter⟩
    | cons next others =>
      exact ⟨char, _, by rw [intercalate_cons_cons]; rfl, letter⟩
  · cases mount

/-- The directory of a mount point has the name of an entry. -/
theorem dashed_isPart {path : List Char} (mount : Text.isMountPath path = true) :
    Text.IsPart (dashed path) := by
  obtain ⟨char, rest, rfl, letter⟩ := begins_of_mount mount
  have other : char ≠ '/' := by
    rintro rfl
    exact absurd letter (by decide)
  have name : dashed ('/' :: char :: rest) =
      char :: rest.map fun char => if char = '/' then '-' else char := by
    show List.map _ (char :: rest) = _
    rw [map_cons, if_neg other]
  have noDot : char ≠ '.' := by
    rintro rfl
    exact absurd letter (by decide)
  rw [name]
  refine ⟨cons_ne_nil _ _, fun slash => ?_, fun dot => noDot (cons.inj dot).1,
    fun dots => noDot (cons.inj dots).1⟩
  obtain here | later := mem_cons.mp slash
  · exact other here.symm
  · obtain ⟨one, _, made⟩ := List.mem_map.mp later
    split at made
    · exact absurd made (by decide)
    · next different => exact different made

/-- Where the server's own directory is. -/
theorem serverRoot_parts (settings : EngineSettings) {serverId : String}
    (valid : SERVER_ID serverId.toList = true) : ∃ root, serverRoot settings serverId = .ok root ∧
      root.parts = settings.root.parts ++ [serverId.toList] :=
  ⟨_, if_pos valid, resolve_part settings.root (valid_isPart valid).1⟩

/-- Where the directory of a cache is: beside the servers, under a name no server can have. -/
theorem cacheDirFor_parts (settings : EngineSettings) {serverId mountPoint : String}
    (valid : SERVER_ID serverId.toList = true)
    (mount : Text.isMountPath mountPoint.toList = true) :
    ∃ directory, cacheDirFor settings serverId mountPoint = .ok directory ∧
      directory.parts =
        settings.root.parts ++ [".cache".toList, serverId.toList, dashed mountPoint.toList] := by
  obtain ⟨root, found, parts⟩ := serverRoot_parts settings valid
  have cache : Text.IsPart ".cache".toList := by decide
  have parent : root.parent.parts = settings.root.parts := by
    show root.parts.dropLast = _
    rw [parts, dropLast_concat]
  have last : root.parts.getLast?.getD [] = serverId.toList := by
    rw [parts, getLast?_concat]
    rfl
  refine ⟨((root.parent.resolve ".cache".toList).resolve serverId.toList).resolve
    (dashed mountPoint.toList), ?_, ?_⟩
  · unfold cacheDirFor cacheRoot
    rw [found]
    show Except.ok (((root.parent.resolve ".cache".toList).resolve
      (root.parts.getLast?.getD [])).resolve (dashed mountPoint.toList)) = _
    rw [last]
  · rw [resolve_part _ (dashed_isPart mount), resolve_part _ (valid_isPart valid).1,
      resolve_part _ cache, parent, append_assoc, append_assoc]
    rfl

theorem mounts_of_parseCachePaths {value : Option PlainJson} {dataPath : String} {paths : List String}
    (parsed : parseCachePaths value dataPath = .ok paths) :
    ∀ path ∈ paths, Text.isMountPath path.toList = true := by
  unfold parseCachePaths at parsed
  split at parsed
  · cases parsed
    exact fun path member => absurd member not_mem_nil
  · cases parsed
    exact fun path member => absurd member not_mem_nil
  · split at parsed
    · cases parsed
    · obtain ⟨all_, walked, rest⟩ := ok_of_bind parsed
      split at rest
      · cases rest
      · cases rest
        exact forall_of_mapM (fun _ _ _ made => mount_of_parseDataPath made) walked
  · cases parsed

/-- What a container is bound to: the server's directory at its mount point, and each cache's. -/
structure Binds (settings : EngineSettings) (spec : CreateSpec) (root : Text.Place)
    (caches : List Bind) : Prop where
  root : root.parts = settings.root.parts ++ [spec.serverId.toList]
  caches : List.Forall₂ (fun mountPoint cache => cache.mountPoint = mountPoint ∧
    cache.directory.parts = settings.root.parts ++
      [".cache".toList, spec.serverId.toList, dashed mountPoint.toList]) spec.cachePaths caches

/-- An accepted spec has a container. -/
theorem containerOptions_ok (settings : EngineSettings) {body : List (String × PlainJson)}
    {spec : CreateSpec} (accepted : Accepted spec body) :
    ∃ options root caches, containerOptions spec settings = .ok options ∧
      options.hostConfig.portBindings =
        Record.ofEntries (spec.listed.map fun one => (one.1, [one.2.binding])) ∧
      options.hostConfig.binds = ⟨root, spec.dataPath⟩ :: caches ∧
      Binds settings spec root caches := by
  have mounts := mounts_of_parseCachePaths accepted.cachePaths
  obtain ⟨root, found, parts⟩ := serverRoot_parts settings accepted.serverId
  have caches : ∀ mountPoint ∈ spec.cachePaths,
      ∃ cache, cacheBind settings spec.serverId mountPoint = .ok cache ∧
        (cache.mountPoint = mountPoint ∧ cache.directory.parts = settings.root.parts ++
          [".cache".toList, spec.serverId.toList, dashed mountPoint.toList]) := by
    intro mountPoint member
    obtain ⟨directory, made, parts⟩ :=
      cacheDirFor_parts settings accepted.serverId (mounts mountPoint member)
    refine ⟨⟨directory, mountPoint⟩, ?_, rfl, parts⟩
    unfold cacheBind
    rw [made]
    rfl
  obtain ⟨caches, walked, each⟩ := exists_mapM_ok caches
  unfold containerOptions
  rw [found, walked]
  exact ⟨_, root, caches, rfl, rfl, rfl, parts, each⟩

/-! ### Ports -/

/-- A port of the container is published as this. -/
def ContainerCreateOptions.Publishes (options : ContainerCreateOptions) (key : PortKey)
    (binding : HostBinding) : Prop :=
  ∃ bindings, options.hostConfig.portBindings.get key = some bindings ∧ binding ∈ bindings

/-- What is published is what the spec lists: each port on each of its transports, at its port
of the node, on loopback when it says so. -/
def PublishesExactly (options : ContainerCreateOptions) (spec : CreateSpec) : Prop :=
  ∀ key binding, options.Publishes key binding ↔
    ∃ port ∈ spec.ports, ∃ transport ∈ transports port.protocol,
      key = (port.container, transport) ∧ binding = port.binding

/-- No two ports of a spec are one port of the container on one transport. -/
def OnePortForEach (spec : CreateSpec) : Prop :=
  ∀ first ∈ spec.ports, ∀ second ∈ spec.ports, ∀ transport ∈ transports first.protocol,
    transport ∈ transports second.protocol → first.container = second.container → first = second

theorem mem_listed {spec : CreateSpec} {key : PortKey} {port : PortSpec} :
    (key, port) ∈ spec.listed ↔
      port ∈ spec.ports ∧ ∃ transport ∈ transports port.protocol,
        key = (port.container, transport) := by
  unfold CreateSpec.listed
  rw [mem_flatMap]
  constructor
  · rintro ⟨other, member, inside⟩
    obtain ⟨transport, on, same⟩ := List.mem_map.mp inside
    cases same
    exact ⟨member, transport, on, rfl⟩
  · rintro ⟨member, transport, on, rfl⟩
    exact ⟨port, member, List.mem_map_of_mem on⟩

/-- Under each key stands the binding of one port that is listed under it. -/
theorem listed_of_get {spec : CreateSpec} {key : PortKey} {bindings : List HostBinding}
    (found : (Record.ofEntries (spec.listed.map fun one => (one.1, [one.2.binding]))).get key =
      some bindings) : ∃ port, (key, port) ∈ spec.listed ∧ bindings = [port.binding] := by
  rw [Record.get_ofEntries] at found
  obtain ⟨entry, hit, value⟩ := Option.map_eq_some_iff.mp found
  have met := find?_some hit
  have named : entry.1 = key := eq_of_beq met
  obtain ⟨one, member, made⟩ :=
    List.mem_map.mp (mem_reverse.mp (mem_of_find?_eq_some hit))
  cases made
  exact ⟨one.2, named ▸ member, value.symm⟩

/-- What the container of an accepted request publishes is what was asked for exactly if no two
ports of the request are one port of the container on one transport. -/
theorem publishesExactly_iff (body : List (String × PlainJson)) (spec : CreateSpec)
    (parsed : parseCreate body = .ok spec) (settings : EngineSettings) :
    ∃ options, containerOptions spec settings = .ok options ∧
      (PublishesExactly options spec ↔ OnePortForEach spec) := by
  have accepted := accepted_of_parseCreate parsed
  obtain ⟨options, root, caches, made, published, _⟩ := containerOptions_ok settings accepted
  refine ⟨options, made, fun exactly first here second there transport one other same => ?_,
    fun alone key binding => ⟨?_, ?_⟩⟩
  · have firstThere := (exactly (first.container, transport) first.binding).mpr
      ⟨first, here, transport, one, rfl, rfl⟩
    have secondThere := (exactly (first.container, transport) second.binding).mpr
      ⟨second, there, transport, other, by rw [same], rfl⟩
    obtain ⟨bindings, found, inside⟩ := firstThere
    obtain ⟨bindings', found', inside'⟩ := secondThere
    obtain rfl : bindings = bindings' := Option.some.inj (found.symm.trans found')
    rw [published] at found
    obtain ⟨port, _, rfl⟩ := listed_of_get found
    have hosts : first.binding = second.binding :=
      (mem_singleton.mp inside).trans (mem_singleton.mp inside').symm
    exact port_eq_of_parsePorts accepted.ports here there one other (HostBinding.mk.inj hosts).1
  · rintro ⟨bindings, found, inside⟩
    rw [published] at found
    obtain ⟨port, member, rfl⟩ := listed_of_get found
    obtain ⟨known, transport, on, key⟩ := mem_listed.mp member
    exact ⟨port, known, transport, on, key, mem_singleton.mp inside⟩
  · rintro ⟨port, member, transport, on, rfl, rfl⟩
    refine ⟨[port.binding], ?_, mem_singleton.mpr rfl⟩
    rw [published]
    refine Record.get_ofEntries_of_mem (List.mem_map.mpr
      ⟨((port.container, transport), port), mem_listed.mpr ⟨member, transport, on, rfl⟩, rfl⟩) ?_
    intro others inside
    obtain ⟨one, listed, made⟩ := List.mem_map.mp inside
    obtain ⟨known, transport', on', key⟩ := mem_listed.mp listed
    obtain ⟨key', rfl⟩ := Prod.mk.inj made
    obtain ⟨containers, rfl⟩ := Prod.mk.inj (key'.symm.trans key)
    rw [alone port member one.2 known transport on on' containers]

/-- A request for a server with these ports and these caches. -/
def requestFor (ports caches : List PlainJson) : List (String × PlainJson) :=
  [("serverId", .string "srv"), ("name", .string "valley"), ("image", .string "itzg/minecraft-server"),
    ("memoryMb", .number 2048), ("cpuLimit", .number 200), ("ports", .array ports),
    ("cachePaths", .array caches)]

def portFor (label : String) (host container : Rat) (loopback : Bool) : PlainJson :=
  .object [("label", .string label), ("host", .number host), ("container", .number container),
    ("loopback", .bool loopback)]

def settingsAtRoot : EngineSettings where
  managedLabel := "geeboard"
  workingDirectory := ⟨[], fun _ member => absurd member not_mem_nil⟩
  dataRoot := "/srv/data".toList

/-- What an accepted request says, and no more. -/
def specOf (ports : List PortSpec) (caches : List String) : CreateSpec where
  serverId := "srv"
  name := "valley"
  image := "itzg/minecraft-server"
  ports
  memoryMb := 2048
  cpuLimit := 200
  env := .empty
  dataPath := "/data"
  cachePaths := caches
  command := []
  start := true

/-- A game's port and an administrative one. -/
theorem publishesExactly_iff_twoPorts :
    ∃ spec options,
      parseCreate (requestFor
        [portFor "Game" 25565 25565 false, portFor "RCON" 25575 25575 true] []) = .ok spec ∧
      containerOptions spec settingsAtRoot = .ok options ∧
      (PublishesExactly options spec ↔ OnePortForEach spec) := by
  have parsed : parseCreate (requestFor
      [portFor "Game" 25565 25565 false, portFor "RCON" 25575 25575 true] []) =
      .ok (specOf [⟨"Game".toList, 25565, 25565, .tcp, false⟩,
        ⟨"RCON".toList, 25575, 25575, .tcp, true⟩] []) := by
    decide +kernel
  obtain ⟨options, made, exactly⟩ := publishesExactly_iff _ _ parsed settingsAtRoot
  exact ⟨_, options, parsed, made, exactly⟩

/-- Two ports of the node for one port of the container: only the later one is published. -/
theorem earlier_port_unpublished :
    ∃ spec options,
      parseCreate (requestFor
        [portFor "Game" 25565 25565 false, portFor "Also" 25566 25565 false] []) = .ok spec ∧
      containerOptions spec settingsAtRoot = .ok options ∧ ¬ PublishesExactly options spec := by
  have parsed : parseCreate (requestFor
      [portFor "Game" 25565 25565 false, portFor "Also" 25566 25565 false] []) =
      .ok (specOf [⟨"Game".toList, 25565, 25565, .tcp, false⟩,
        ⟨"Also".toList, 25566, 25565, .tcp, false⟩] []) := by
    decide +kernel
  obtain ⟨options, _, _, made, published, _⟩ :=
    containerOptions_ok settingsAtRoot (accepted_of_parseCreate parsed)
  refine ⟨_, options, parsed, made, fun exactly => ?_⟩
  obtain ⟨bindings, found, inside⟩ := (exactly (25565, .tcp) ⟨25565, none⟩).mpr
    ⟨⟨"Game".toList, 25565, 25565, .tcp, false⟩, mem_cons_self, .tcp, mem_cons_self,
      rfl, rfl⟩
  rw [published] at found
  have last : (Record.ofEntries ((specOf [⟨"Game".toList, 25565, 25565, .tcp, false⟩,
      ⟨"Also".toList, 25566, 25565, .tcp, false⟩] []).listed.map fun one =>
        (one.1, [one.2.binding]))).get (25565, .tcp) = some [⟨25566, none⟩] := by
    decide +kernel
  obtain rfl := Option.some.inj (found.symm.trans last)
  exact absurd inside (by decide)

/-! ### Mounts -/

/-- The directories that two containers bind at different mount points of a server, or for two
servers, are different, and neither holds the other. -/
def MountsApart (first second : CreateSpec) (firstOptions secondOptions : ContainerCreateOptions) :
    Prop :=
  ∀ one ∈ firstOptions.hostConfig.binds, ∀ other ∈ secondOptions.hostConfig.binds,
    first.serverId ≠ second.serverId ∨ one.mountPoint ≠ other.mountPoint →
    one.directory ≠ other.directory ∧ ¬ one.directory.Within other.directory ∧
      ¬ other.directory.Within one.directory

/-- Where two specs are of one server, its data has one mount point, and mount points of caches
that differ have names of directories that differ. -/
def NamesApart (first second : CreateSpec) : Prop :=
  first.serverId = second.serverId → first.dataPath = second.dataPath ∧
    ∀ one ∈ first.cachePaths, ∀ other ∈ second.cachePaths,
      dashed one.toList = dashed other.toList → one = other

/-- Two directories of a root: different, and neither inside the other, when none of the ways
that lead to them begins the other. -/
theorem apart_iff {base first second : List (List Char)} {one other : Text.Place}
    (here : one.parts = base ++ first) (there : other.parts = base ++ second) :
    (one ≠ other ∧ ¬ one.Within other ∧ ¬ other.Within one) ↔
      ¬ first <+: second ∧ ¬ second <+: first := by
  unfold Text.Place.Within
  rw [here, there, prefix_append_right_inj, prefix_append_right_inj]
  refine ⟨And.right, fun apart => ⟨?_, apart⟩⟩
  rintro rfl
  obtain rfl := append_cancel_left (here.symm.trans there)
  exact apart.1 prefix_rfl

/-- No server's directory is the one the caches are in. -/
theorem not_cache {serverId : String} (valid : SERVER_ID serverId.toList = true) :
    ¬ ".cache".toList = serverId.toList := by
  intro same
  refine (valid_isPart valid).2 ?_
  rw [← same]
  decide

theorem prefix_root_iff {first second : String} :
    [first.toList] <+: [second.toList] ↔ first = second := by
  rw [cons_prefix_cons, String.toList_inj]
  exact and_iff_left prefix_rfl

theorem prefix_cache_iff {first second : String} {one other : List Char} :
    [".cache".toList, first.toList, one] <+: [".cache".toList, second.toList, other] ↔
      first = second ∧ one = other := by
  simp only [cons_prefix_cons, String.toList_inj]
  exact ⟨fun ⟨_, same, equal, _⟩ => ⟨same, equal⟩,
    fun ⟨same, equal⟩ => ⟨trivial, same, equal, prefix_rfl⟩⟩

/-- A server's data and a cache of any server are apart. -/
theorem data_apart_cache {data cache : String} {name : List Char}
    (valid : SERVER_ID data.toList = true) :
    ¬ [data.toList] <+: [".cache".toList, cache.toList, name] ∧
      ¬ [".cache".toList, cache.toList, name] <+: [data.toList] := by
  rw [cons_prefix_cons, cons_prefix_cons]
  exact ⟨fun same => not_cache valid same.1.symm, fun same => not_cache valid same.1⟩

/-- The mount points of two accepted requests have directories apart exactly if the requests are
of two servers, or the data is mounted at one point and no two mount points of caches come to
one name. -/
theorem mountsApart_iff (firstBody secondBody : List (String × PlainJson)) (first second : CreateSpec)
    (firstParsed : parseCreate firstBody = .ok first)
    (secondParsed : parseCreate secondBody = .ok second) (settings : EngineSettings) :
    ∃ firstOptions secondOptions, containerOptions first settings = .ok firstOptions ∧
      containerOptions second settings = .ok secondOptions ∧
      (MountsApart first second firstOptions secondOptions ↔ NamesApart first second) := by
  have firstAccepted := accepted_of_parseCreate firstParsed
  have secondAccepted := accepted_of_parseCreate secondParsed
  obtain ⟨firstOptions, root, caches, made, _, bound, binds⟩ :=
    containerOptions_ok settings firstAccepted
  obtain ⟨secondOptions, root', caches', made', _, bound', binds'⟩ :=
    containerOptions_ok settings secondAccepted
  refine ⟨firstOptions, secondOptions, made, made', ?_⟩
  unfold MountsApart
  rw [bound, bound']
  constructor
  · intro apart server
    refine ⟨?_, fun one member other member' same => ?_⟩
    · by_contra different
      have roots := apart _ mem_cons_self _ mem_cons_self (Or.inr different)
      exact ((apart_iff binds.root binds'.root).mp roots).1 (prefix_root_iff.mpr server)
    · by_contra different
      obtain ⟨cache, inside, named, parts⟩ := exists_right_of_forall₂ binds.caches one member
      obtain ⟨cache', inside', named', parts'⟩ := exists_right_of_forall₂ binds'.caches other member'
      have dirs := apart cache (mem_cons_of_mem _ inside) cache'
        (mem_cons_of_mem _ inside') (Or.inr (by rw [named, named']; exact different))
      exact ((apart_iff parts parts').mp dirs).1 (prefix_cache_iff.mpr ⟨server, same⟩)
  · intro names one member other member' different
    obtain rfl | inside := mem_cons.mp member
    · obtain rfl | inside' := mem_cons.mp member'
      · have servers : first.serverId ≠ second.serverId := by
          intro server
          obtain servers | mounts := different
          · exact servers server
          · exact mounts (names server).1
        exact (apart_iff binds.root binds'.root).mpr ⟨fun same => servers (prefix_root_iff.mp same),
          fun same => servers (prefix_root_iff.mp same).symm⟩
      · obtain ⟨_, _, _, parts⟩ := exists_left_of_forall₂ binds'.caches other inside'
        exact (apart_iff binds.root parts).mpr (data_apart_cache firstAccepted.serverId)
    · obtain ⟨mount, listed, named, parts⟩ := exists_left_of_forall₂ binds.caches one inside
      obtain rfl | inside' := mem_cons.mp member'
      · exact (apart_iff parts binds'.root).mpr (data_apart_cache secondAccepted.serverId).symm
      · obtain ⟨mount', listed', named', parts'⟩ :=
          exists_left_of_forall₂ binds'.caches other inside'
        have apart : ¬ (first.serverId = second.serverId ∧
            dashed mount.toList = dashed mount'.toList) := by
          rintro ⟨server, same⟩
          obtain servers | mounts := different
          · exact servers server
          · rw [named, named'] at mounts
            exact mounts ((names server).2 mount listed mount' listed' same)
        exact (apart_iff parts parts').mpr ⟨fun same => apart (prefix_cache_iff.mp same),
          fun same => apart ((prefix_cache_iff.mp same).imp Eq.symm Eq.symm)⟩

/-- A server with one cache, and the same server with another one. -/
theorem mountsApart_iff_oneCache :
    ∃ first second firstOptions secondOptions,
      parseCreate (requestFor [portFor "Game" 25565 25565 false] [.string "/opt/a"]) = .ok first ∧
      parseCreate (requestFor [portFor "Game" 25565 25565 false] [.string "/opt/b"]) = .ok second ∧
      containerOptions first settingsAtRoot = .ok firstOptions ∧
      containerOptions second settingsAtRoot = .ok secondOptions ∧
      (MountsApart first second firstOptions secondOptions ↔ NamesApart first second) := by
  have parsed : ∀ cache ∈ ["/opt/a", "/opt/b"],
      parseCreate (requestFor [portFor "Game" 25565 25565 false] [.string cache]) =
        .ok (specOf [⟨"Game".toList, 25565, 25565, .tcp, false⟩] [cache]) := by
    decide +kernel
  have first := parsed "/opt/a" (by decide)
  have second := parsed "/opt/b" (by decide)
  obtain ⟨firstOptions, secondOptions, made, made', apart⟩ :=
    mountsApart_iff _ _ _ _ first second settingsAtRoot
  exact ⟨_, _, firstOptions, secondOptions, first, second, made, made', apart⟩

/-- Two mount points of caches that are taken together and have one directory. -/
theorem two_caches_one_directory :
    ∃ spec options,
      parseCreate (requestFor [portFor "Game" 25565 25565 false]
        [.string "/opt/a-b", .string "/opt/a/b"]) = .ok spec ∧
      containerOptions spec settingsAtRoot = .ok options ∧
      ¬ MountsApart spec spec options options := by
  have parsed : parseCreate (requestFor [portFor "Game" 25565 25565 false]
      [.string "/opt/a-b", .string "/opt/a/b"]) =
      .ok (specOf [⟨"Game".toList, 25565, 25565, .tcp, false⟩] ["/opt/a-b", "/opt/a/b"]) := by
    decide +kernel
  obtain ⟨options, root, caches, made, _, bound, binds⟩ :=
    containerOptions_ok settingsAtRoot (accepted_of_parseCreate parsed)
  refine ⟨_, options, parsed, made, fun apart => ?_⟩
  unfold MountsApart at apart
  rw [bound] at apart
  obtain ⟨one, inside, named, parts⟩ :=
    exists_right_of_forall₂ binds.caches "/opt/a-b" (mem_cons_self)
  obtain ⟨other, inside', named', parts'⟩ :=
    exists_right_of_forall₂ binds.caches "/opt/a/b"
      (mem_cons_of_mem _ mem_cons_self)
  have dirs := apart one (mem_cons_of_mem _ inside) other (mem_cons_of_mem _ inside')
    (Or.inr (by rw [named, named']; decide))
  exact ((apart_iff parts parts').mp dirs).1 (prefix_cache_iff.mpr ⟨rfl, by decide⟩)

end Geeboard.Agent
