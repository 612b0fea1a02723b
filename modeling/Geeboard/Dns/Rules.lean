/-
This file decides about DNS records, with nothing that talks to a provider.

A server wants up to three records: one for each family of address its node has,
and one that names a port where its game asks for it and the provider can hold it.
What is done about a record depends on what is at its name. The panel creates where
there is nothing of the kind, adopts what already says the same, updates what it
made itself, and refuses the rest.
-/

import Geeboard.Text.Numerals

namespace Geeboard.Dns

open Text (decimal isSpace trimmed)

/-! ### Providers -/

inductive DnsKind where
  | duckdns | cloudflare | webhook
  deriving DecidableEq, Repr

/-- Whether a provider can say what is at a name. -/
def DnsKind.reads : DnsKind → Bool
  | .cloudflare => true
  | _ => false

def providerHoldsSrv : DnsKind → Bool
  | .duckdns => false
  | _ => true

/-- The kinds of record the panel writes. -/
inductive RecordKind where
  | a | aaaa | srv
  deriving DecidableEq, Repr

def RecordKind.text : RecordKind → String
  | .a => "A"
  | .aaaa => "AAAA"
  | .srv => "SRV"

/-- A text without the blanks around it. -/
def trim (text : String) : String := String.ofList (trimmed text.toList)

/-- A name as it is compared: without blanks around it, in lower case. -/
def folded (name : String) : String := String.ofList ((trimmed name.toList).map Char.toLower)

/-! ### Addresses -/

inductive AddressFamily where
  | v4 | v6
  deriving DecidableEq, Repr

/-- A number up to 255 without leading zeros. -/
def isOctet (part : List Char) : Bool :=
  !part.isEmpty && part.length ≤ 3 && part.all Char.isDigit && decimal part ≤ 255 &&
    (part.length == 1 || part.head? != some '0')

def isHexDigit (char : Char) : Bool :=
  char.isDigit || ('a' ≤ char && char ≤ 'f') || ('A' ≤ char && char ≤ 'F')

/-- How many times two colons stand next to one another, none counted twice. -/
def doubleColons : List Char → Nat
  | ':' :: ':' :: rest => doubleColons rest + 1
  | _ :: rest => doubleColons rest
  | [] => 0

/-- The family of an address literal. -/
def addressFamily (value : String) : Option AddressFamily :=
  let text := trimmed value.toList
  let parts := text.splitOn '.'
  if parts.length = 4 && parts.all isOctet then some .v4
  else if !text.isEmpty && text.all (fun char => isHexDigit char || char == ':') &&
      text.contains ':' && doubleColons text ≤ 1 && text.count ':' ≤ 7 then some .v6
  else none

/-- Whether an IPv4 address is one the Internet can route to. -/
def isPublicV4 (parts : List Nat) : Bool :=
  match parts with
  | first :: second :: _ =>
    !(first == 10 || first == 127 || first == 0) &&
    !(first == 172 && 16 ≤ second && second ≤ 31) &&
    !(first == 192 && second == 168) &&
    !(first == 169 && second == 254) &&
    !(first == 100 && 64 ≤ second && second ≤ 127) &&
    first < 224
  | _ => false

/-- Whether an address is one the Internet can route to, looking into as many addresses written
in one another. -/
def isPublicWithin : Nat → String → Bool
  | 0, _ => false
  | steps + 1, value =>
    match addressFamily value with
    | some .v4 => isPublicV4 ((value.toList.splitOn '.').map fun part => decimal (trimmed part))
    | some .v6 =>
      let text := value.toList.map Char.toLower
      if text == "::1".toList || text == "::".toList then false
      else
        match text with
        | ':' :: ':' :: 'f' :: 'f' :: 'f' :: 'f' :: ':' :: rest =>
          isPublicWithin steps (String.ofList rest)
        | 'f' :: 'c' :: _ => false
        | 'f' :: 'd' :: _ => false
        | 'f' :: 'e' :: third :: _ => !(['8', '9', 'a', 'b'].contains third)
        | _ => true
    | none => false

def isPublicAddress (value : String) : Bool := isPublicWithin (value.toList.length + 1) value

/-- What is known of where a node is. -/
structure NodeAddressFacts where
  publicAddress : Option String := none
  publicAddress6 : Option String := none
  observedAddress : Option String := none
  deriving DecidableEq, Repr

/-- Why a node has no address for a record. -/
inductive NoAddress where
  | unset | private_
  deriving DecidableEq, Repr

/-- The addresses a node's records point at. -/
structure NodeAddresses where
  v4 : Option String
  v6 : Option String
  deriving DecidableEq, Repr

/-- A text that is there when it is trimmed. -/
def present (text : Option String) : Option String :=
  (text.map trim).filter fun text => text != ""

/-- One address for each family: what a person set, else what the panel observed. -/
def nodeAddresses (node : NodeAddressFacts) : Except NoAddress NodeAddresses :=
  let hand := present node.publicAddress
  let hand6 := present node.publicAddress6
  let v4 := hand.filter fun address => addressFamily address == some .v4
  let v6 := (hand6.filter fun address => addressFamily address == some .v6) <|>
    hand.filter fun address => addressFamily address == some .v6
  if v4.isSome || v6.isSome then .ok ⟨v4, v6⟩
  else
    match present node.observedAddress with
    | none => .error .unset
    | some seen =>
      match addressFamily seen with
      | none => .error .unset
      | some family =>
        if !isPublicAddress seen then .error .private_
        else match family with
          | .v4 => .ok ⟨some seen, none⟩
          | .v6 => .ok ⟨none, some seen⟩

/-! ### Names -/

/-- The subdomain of duckdns.org a name belongs to: the last label before it. -/
def duckBase (host : String) : Option String :=
  let isLabel := fun (label : List Char) => !label.isEmpty &&
    label.all fun char => char.isLower || char.isDigit || char == '-'
  match ((folded host).toList.splitOn '.').reverse with
  | last :: site :: base :: front =>
    if last == "org".toList && site == "duckdns".toList && isLabel base && front.all isLabel then
      some (String.ofList base)
    else none
  | _ => none

/-- Two names under the same subdomain, which share one address. -/
def sameDuckBase (first second : String) : Bool :=
  (duckBase first).isSome && duckBase first == duckBase second

/-- Whether a host is the provider's to write. -/
def coveredBy (kind : DnsKind) (zone host : String) : Bool :=
  let name := (folded host).toList
  let ending := (folded zone).toList
  if name.isEmpty || ending.isEmpty then false
  else if kind = .duckdns then (duckBase (folded host)).isSome
  else name == ending || ('.' :: ending).isSuffixOf name

abbrev ServerId := String

/-- What the panel writes into a record's comment to know it as its own. -/
def markerFor (server : ServerId) : String := "geeboard:" ++ server

/-! ### Wanted records -/

/-- What a server's game asks for, with the port it is on. -/
structure SrvFacts where
  service : String
  protocol : String
  port : Nat
  deriving DecidableEq, Repr

def SRV_PRIORITY : Nat := 0
def SRV_WEIGHT : Nat := 5

def srvName (srv : SrvFacts) (host : String) : String :=
  "_" ++ srv.service ++ "._" ++ srv.protocol ++ "." ++ folded host

def srvContent (port : Nat) (target : String) : String :=
  s!"{SRV_PRIORITY} {SRV_WEIGHT} {port} {folded target}"

/-- A record the panel wants at a name. -/
structure WantedRecord where
  kind : RecordKind
  name : String
  content : String
  deriving DecidableEq, Repr

/-- Every record a server wants. -/
def wantedRecords (host : String) (node : NodeAddressFacts) (kind : DnsKind)
    (srv : Option SrvFacts) : Except NoAddress (List WantedRecord) :=
  (nodeAddresses node).map fun addresses =>
    (addresses.v4.toList.map fun address => ⟨.a, folded host, address⟩) ++
    (addresses.v6.toList.map fun address => ⟨.aaaa, folded host, address⟩) ++
    ((srv.filter fun _ => providerHoldsSrv kind).toList.map fun srv =>
      ⟨.srv, srvName srv (folded host), srvContent srv.port (folded host)⟩)

/-! ### What to do at a name -/

/-- A record as a provider holds it. Its comment is kept without blanks around it. -/
structure DnsRecord where
  id : Nat
  type : String
  name : String
  content : String
  comment : String
  deriving DecidableEq, Repr

/-- One blank for each run of blanks. -/
def spaced : List Char → List Char
  | [] => []
  | first :: rest =>
    if isSpace first then
      if rest.head?.any isSpace then spaced rest else ' ' :: spaced rest
    else first :: spaced rest

/-- The text of a record about a port, to compare two. -/
def normaliseSrv (content : String) : List Char :=
  let text := spaced ((trimmed content.toList).map Char.toLower)
  if text.getLast? = some '.' then text.dropLast else text

/-- An address in the form two of them are compared in. How the language spells an IPv6 address
is `spell`. -/
def canonicalAddress (spell : String → Option String) (value : String) : String :=
  if addressFamily value = some .v6 then
    (spell (trim value)).getD (folded value)
  else trim value

/-- Whether a record says what is wanted. -/
def saysWanted (spell : String → Option String) (record : DnsRecord) (wanted : WantedRecord) :
    Bool :=
  match wanted.kind with
  | .srv => normaliseSrv record.content == normaliseSrv wanted.content
  | _ => canonicalAddress spell record.content == canonicalAddress spell wanted.content

inductive DnsDecision where
  | create
  | adopt (id : Nat)
  | update (id : Nat)
  | nothing (id : Option Nat)
  | refuse (reason : String)
  deriving DecidableEq, Repr

def decideRecord (spell : String → Option String) (existing : List DnsRecord)
    (wanted : WantedRecord) (marker : String) : DnsDecision :=
  match existing.find? fun record => record.type == "CNAME" with
  | some alias_ =>
    .refuse (s!"a CNAME to {alias_.content} already exists at that name, and Geeboard did not " ++
      "make it")
  | none =>
    match existing.filter fun record => record.type == wanted.kind.text with
    | [] => .create
    | [only] =>
      if saysWanted spell only wanted then
        if only.comment == marker then .nothing (some only.id) else .adopt only.id
      else if only.comment == marker then .update only.id
      else
        let subject := if wanted.kind = .srv then "an SRV record" else "a record"
        let verb := if wanted.kind = .srv then "saying" else "pointing at"
        .refuse (s!"{subject} for that name already exists, {verb} {only.content}, and " ++
          "Geeboard did not make it")
    | several =>
      .refuse (s!"{several.length} {wanted.kind.text} records already exist at that name, and " ++
        "Geeboard keeps one")

/-! ### Rows -/

/-- A record the panel keeps for a server, as it is stored. -/
structure DnsRow where
  kind : RecordKind
  name : String
  /-- The provider's id for it. -/
  recordId : Option Nat
  /-- What was last written. -/
  content : Option String
  checkedAt : Nat
  error : Option String
  deriving DecidableEq, Repr

def DNS_RETRY_MS : Nat := 5 * 60000

/-- Whether the poller should try a server's records on this pass. -/
def dnsNeedsSync (host : String) (rows : List DnsRow) (kind : DnsKind) (zone : String)
    (node : NodeAddressFacts) (srv : Option SrvFacts) (now : Nat) : Bool :=
  coveredBy kind zone host &&
    match wantedRecords host node kind srv with
    | .error _ => false
    | .ok wanted =>
      rows.any (fun row => !wanted.any fun record => record.kind == row.kind) ||
        wanted.any fun record =>
          match rows.find? fun row => row.kind == record.kind with
          | none => true
          | some row =>
            !(row.error.isNone && row.name == record.name && row.content == some record.content) &&
              !(row.error.isSome && now - row.checkedAt < DNS_RETRY_MS)

end Geeboard.Dns
