/-
This file is how an agent reads a request for a workload.

Every field of the request becomes part of a container on somebody's machine, so
the agent takes what it knows within limits of its own, and refuses the rest with
the reason. The panel's checks are other code: nothing here relies on them.
-/

import Geeboard.Games.Render
import Geeboard.Text.Json
import Geeboard.Text.Names

namespace Geeboard.Agent

open Games
open Text (PlainJson Record memberOf utf16Length)

/-! ### Specs -/

structure PortSpec where
  label : List Char
  host : Int
  container : Int
  protocol : Protocol
  loopback : Bool
  deriving DecidableEq, Repr

structure CreateSpec where
  serverId : String
  name : String
  image : String
  ports : List PortSpec
  memoryMb : Int
  cpuLimit : Int
  env : Record String (List Char)
  dataPath : String
  cachePaths : List String
  command : List (List Char)
  start : Bool
  deriving DecidableEq, Repr

def MIN_MEMORY_MB : Int := 128
def MAX_MEMORY_MB : Int := 256 * 1024
def MIN_CPU_PCT : Int := 10
def MAX_CPU_PCT : Int := 3200
def MAX_PORTS : Nat := 8
def MAX_ENV : Nat := 64
def MAX_ENV_VALUE : Nat := 4096
def MAX_ARGS : Nat := 32
def MAX_ARG_LENGTH : Nat := 512
def MIN_HOST_PORT : Int := 1024
def MAX_CACHE_PATHS : Nat := 2

/-- The name of a workload. -/
def NAME (text : List Char) : Bool :=
  Text.upTo 39 (Text.beginsThen Text.isLowerDigit fun char => Text.isLowerDigit char || char == '-')
    text

/-- The id of a server, which becomes the name of a directory. -/
def SERVER_ID (text : List Char) : Bool :=
  !text.isEmpty && text.length ≤ 128 &&
    text.all fun char => char.isAlphanum || char == '_' || char == '-'

/-! ### Reading a request -/

def str (body : List (String × PlainJson)) (key : String) : Except String String :=
  match memberOf body key with
  | some (.string text) => if text = "" then .error s!"{key} is required" else .ok text
  | _ => .error s!"{key} is required"

def int (body : List (String × PlainJson)) (key : String) (least most : Int) : Except String Int :=
  match memberOf body key with
  | some (.number value) =>
    if value.den ≠ 1 then .error s!"{key} must be a whole number"
    else if value.num < least ∨ most < value.num then
      .error s!"{key} must be between {least} and {most}"
    else .ok value.num
  | _ => .error s!"{key} must be a whole number"

/-- The transports a port is published on. -/
def transports : Protocol → List Protocol
  | .both => [.tcp, .udp]
  | protocol => [protocol]

def protocolWord : Protocol → String
  | .tcp => "tcp"
  | .udp => "udp"
  | .both => "both"

def parseProtocol : Option PlainJson → Except String Protocol
  | none => .ok .tcp
  | some .null => .ok .tcp
  | some (.string "tcp") => .ok .tcp
  | some (.string "udp") => .ok .udp
  | some (.string "both") => .ok .both
  | _ => .error "protocol must be tcp, udp or both"

def parseLoopback : Option PlainJson → Except String Bool
  | none => .ok false
  | some (.bool on) => .ok on
  | _ => .error "loopback must be true or false"

def parsePort : PlainJson → Except String PortSpec
  | .object port => do
    let label := match memberOf port "label" with
      | some (.string text) => Text.trimmed text.toList
      | _ => []
    if label.isEmpty || 24 < utf16Length label then throw "each port needs a label"
    let host ← int port "host" MIN_HOST_PORT 65535
    let container ← if (memberOf port "container").isNone then pure host
      else int port "container" 1 65535
    let protocol ← parseProtocol (memberOf port "protocol")
    let loopback ← parseLoopback (memberOf port "loopback")
    pure ⟨label, host, container, protocol, loopback⟩
  | .array _ => .error "each port needs a label"
  | _ => .error "each port must be an object"

/-- The ports one after another, with the host's ports that are listed already. -/
def parsePortsFrom (seen : List (Int × Protocol)) : List PlainJson → Except String (List PortSpec)
  | [] => .ok []
  | entry :: entries => do
    let port ← parsePort entry
    let own := (transports port.protocol).map fun transport => (port.host, transport)
    match own.find? seen.contains with
    | some (host, transport) => throw s!"port {host}/{protocolWord transport} is listed twice"
    | none =>
      let ports ← parsePortsFrom (seen ++ own) entries
      pure (port :: ports)

def parsePorts : Option PlainJson → Except String (List PortSpec)
  | some (.array entries) =>
    if entries.isEmpty then .error "at least one port is required"
    else if MAX_PORTS < entries.length then .error s!"no more than {MAX_PORTS} ports"
    else parsePortsFrom [] entries
  | _ => .error "at least one port is required"

def parseVariable (entry : String × PlainJson) : Except String (String × List Char) :=
  let key := entry.1
  if !Text.isVariable key.toList then .error s!"{key} is not a valid environment variable name"
  else
    match entry.2 with
    | .string value =>
      if MAX_ENV_VALUE < utf16Length value.toList then .error s!"{key} is too long"
      else if value.toList.contains '\x00' then .error s!"{key} contains a null byte"
      else .ok (key, value.toList)
    | _ => .error s!"{key} must be a string"

def parseEnv : Option PlainJson → Except String (Record String (List Char))
  | none => .ok .empty
  | some .null => .ok .empty
  | some (.object entries) => do
    if MAX_ENV < entries.length then throw s!"no more than {MAX_ENV} environment variables"
    let variables_ ← entries.mapM parseVariable
    -- An assignment to this name sets no member of its own.
    pure (.ofEntries (variables_.filter fun variable_ => variable_.1 != "__proto__"))
  | _ => .error "env must be an object"

/-- A character that an argument may not have. -/
def isArgControl (char : Char) : Bool := char.toNat < 0x20 || char.toNat == 0x7f

def parseArgument (number : Nat) : PlainJson → Except String (List Char)
  | .string argument =>
    if MAX_ARG_LENGTH < utf16Length argument.toList then .error s!"argument {number + 1} is too long"
    else if argument.toList.any isArgControl then
      .error s!"argument {number + 1} contains a control character"
    else .ok argument.toList
  | _ => .error s!"argument {number + 1} must be a string"

def parseArguments : Nat → List PlainJson → Except String (List (List Char))
  | _, [] => .ok []
  | number, argument :: rest => do
    let parsed ← parseArgument number argument
    let others ← parseArguments (number + 1) rest
    pure (parsed :: others)

def parseCommand : Option PlainJson → Except String (List (List Char))
  | none => .ok []
  | some .null => .ok []
  | some (.array arguments) =>
    if MAX_ARGS < arguments.length then .error s!"no more than {MAX_ARGS} arguments"
    else parseArguments 0 arguments
  | _ => .error "command must be a list of arguments"

def parseDataPath : Option PlainJson → Except String String
  | none => .ok "/data"
  | some .null => .ok "/data"
  | some (.string value) =>
    let path := Text.trimmed value.toList
    if !Text.isMountPath path || includes path ['.', '.'] then
      .error "that is not a valid mount point"
    else if Text.isSystemPath path then
      .error (String.ofList path ++ " cannot be used as a mount point")
    else .ok (String.ofList path)
  | _ => .error "dataPath must be a string"

/-- Whether one mount point is another one, or lies inside it. -/
def overlaps (path other : String) : Bool :=
  path == other || (other.toList ++ ['/']).isPrefixOf path.toList

/-- A mount point of a list that overlaps another one of it. -/
def overlapping (paths : List String) : Option String :=
  ((paths.zipIdx).find? fun one => (paths.zipIdx).any fun other =>
    one.2 != other.2 && overlaps one.1 other.1).map Prod.fst

def parseCachePaths (value : Option PlainJson) (dataPath : String) : Except String (List String) :=
  match value with
  | none => .ok []
  | some .null => .ok []
  | some (.array entries) =>
    if MAX_CACHE_PATHS < entries.length then .error s!"no more than {MAX_CACHE_PATHS} cache mounts"
    else do
      let paths ← entries.mapM fun entry => parseDataPath (some entry)
      match overlapping (dataPath :: paths) with
      | some path => .error s!"{path} overlaps another mount point"
      | none => .ok paths
  | _ => .error "cachePaths must be a list"

def imageReference (image : String) : Except String String :=
  if image = "" || 255 < utf16Length image.toList || includes image.toList ['.', '.'] ||
      !Text.isReference image.toList then
    .error "that is not a valid image reference"
  else .ok image

/-- Whether a workload is to be started as it is made: unless it is said not to. -/
def parseStart : Option PlainJson → Bool
  | some (.bool false) => false
  | _ => true

/-- Turns the body of a request into a spec, or refuses it. -/
def parseCreate (body : List (String × PlainJson)) : Except String CreateSpec := do
  let serverId ← str body "serverId"
  if !SERVER_ID serverId.toList then throw "invalid server id"
  let name ← str body "name"
  if !NAME name.toList then throw "name must be lowercase letters, digits and dashes"
  let image ← str body "image"
  let image ← imageReference image
  let ports ← parsePorts (memberOf body "ports")
  let memoryMb ← int body "memoryMb" MIN_MEMORY_MB MAX_MEMORY_MB
  let cpuLimit ← int body "cpuLimit" MIN_CPU_PCT MAX_CPU_PCT
  let env ← parseEnv (memberOf body "env")
  let dataPath ← parseDataPath (memberOf body "dataPath")
  let cachePaths ← parseCachePaths (memberOf body "cachePaths") dataPath
  let command ← parseCommand (memberOf body "command")
  pure ⟨serverId, name, image, ports, memoryMb, cpuLimit, env, dataPath, cachePaths, command,
    parseStart (memberOf body "start")⟩

end Geeboard.Agent
