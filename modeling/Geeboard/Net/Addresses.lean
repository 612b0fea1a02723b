/-
This file is about what kind of place an IP address is, for deciding whether the panel
may call it on somebody's word.

The platform says whether a text is an address. The panel then reads the eight numbers
of an IPv6 address out of its text, and judges an address that carries another one by
what it carries.
-/

import Geeboard.Dns.Spellings

namespace Geeboard.Net

open Dns (AddressFamily isGroup isOctet isHexDigit hexValue hexText)
open Text (atDouble trimmed decimal)

/-! ### What the platform takes for an address -/

/-- The parts of a text between its colons: none of an empty text. -/
def pieces (text : List Char) : List (List Char) := if text.isEmpty then [] else text.splitOn ':'

def isIPv4 (text : List Char) : Bool :=
  let parts := text.splitOn '.'
  parts.length == 4 && parts.all isOctet

/-- How many numbers some parts write: one each, and two the last one when it is dotted. -/
def widthOf : List (List Char) → Option Nat
  | [] => some 0
  | [last] => if isGroup last then some 1 else if isIPv4 last then some 2 else none
  | part :: parts => if isGroup part then (widthOf parts).map (· + 1) else none

/-- An IPv6 address without a zone: eight numbers, or fewer with two colons for the others. -/
def isBare (text : List Char) : Bool :=
  match atDouble ':' text with
  | none => widthOf (pieces text) == some 8
  | some (front, back) =>
    (pieces front).all isGroup &&
      (widthOf (pieces back)).any fun width => (pieces front).length + width ≤ 7

/-- A character of the name of a zone. -/
def isZoneChar (char : Char) : Bool :=
  char.isAlphanum || char == '-' || char == '.' || char == ':'

/-- A text without its zone. -/
def unzoned (text : List Char) : List Char := text.takeWhile fun char => char != '%'

def isIPv6 (text : List Char) : Bool :=
  match text.dropWhile fun char => char != '%' with
  | [] => isBare text
  | _ :: zone => !zone.isEmpty && zone.all isZoneChar && isBare (unzoned text)

/-! ### Classes -/

inductive AddressClass where
  | public_ | private_ | loopback | linkLocal | metadata | unspecified | multicast | reserved
  deriving DecidableEq, Repr

/-- The family of a literal. -/
def literalFamily (value : List Char) : Option AddressFamily :=
  let v := trimmed value
  if isIPv4 v then some .v4 else if isIPv6 v then some .v6 else none

/-- The four numbers of an IPv4 address. -/
structure Quad where
  a : Nat
  b : Nat
  c : Nat
  d : Nat
  deriving DecidableEq, Repr

def v4Parts (value : List Char) : Quad :=
  let p := (value.splitOn '.').map fun part => decimal (trimmed part)
  ⟨p.getD 0 0, p.getD 1 0, p.getD 2 0, p.getD 3 0⟩

def classifyV4 (quad : Quad) : AddressClass :=
  let ⟨a, b, c, d⟩ := quad
  if a = 0 then .unspecified
  else if a = 127 then .loopback
  else if a = 169 ∧ b = 254 then .linkLocal
  else if a = 100 ∧ b = 100 ∧ c = 100 ∧ d = 200 then .metadata
  else if a = 168 ∧ b = 63 ∧ c = 129 ∧ d = 16 then .metadata
  else if a = 192 ∧ b = 0 ∧ c = 0 then if d = 192 then .metadata else .reserved
  else if a = 198 ∧ (b = 18 ∨ b = 19) then .private_
  else if a = 10 then .private_
  else if a = 172 ∧ 16 ≤ b ∧ b ≤ 31 then .private_
  else if a = 192 ∧ b = 168 then .private_
  else if a = 100 ∧ 64 ≤ b ∧ b ≤ 127 then .private_
  else if 224 ≤ a ∧ a ≤ 239 then .multicast
  else if 240 ≤ a then .reserved
  else .public_

/-! ### The numbers of an IPv6 address -/

/-- Four runs of digits with dots between them. -/
def isDotted (text : List Char) : Bool :=
  let parts := text.splitOn '.'
  parts.length == 4 && parts.all fun part => !part.isEmpty && part.all Char.isDigit

/-- A text with a dotted end: what is before it, up to the last colon, and the end. -/
def dottedTail (v : List Char) : Option (List Char × List Char) :=
  let front := v.rdropWhile fun char => char != ':'
  let tail := v.rtakeWhile fun char => char != ':'
  if !front.isEmpty && isDotted tail then some (front, tail) else none

/-- A text with the numbers of its dotted end, if it has one, in base sixteen. -/
def withoutDots (v : List Char) : List Char :=
  match dottedTail v with
  | some (front, tail) =>
    let quad := v4Parts tail
    front ++ hexText (quad.a <<< 8 ||| quad.b) ++ ':' :: hexText (quad.c <<< 8 ||| quad.d)
  | none => v

/-- The number that a text begins with, in base sixteen. -/
def parseHex (text : List Char) : Option Nat :=
  let digits := text.takeWhile isHexDigit
  if digits.isEmpty then none else some (hexValue digits)

/-- The texts of all eight numbers: two colons are filled up with noughts. -/
def eightTexts (v : List Char) : Option (List (List Char)) :=
  match atDouble ':' v with
  | none => if (pieces v).length = 8 then some (pieces v) else none
  | some (front, back) =>
    if (atDouble ':' back).isSome then none
    else if 8 < (pieces front).length + (pieces back).length then none
    else
      let fill := 8 - (pieces front).length - (pieces back).length
      some (pieces front ++ List.replicate fill ['0'] ++ pieces back)

/-- The numbers of a text that has no dotted end. -/
def groupsOf (v : List Char) : Option (List Nat) :=
  (eightTexts v).bind fun texts =>
    (texts.mapM parseHex).filter fun groups =>
      groups.length == 8 && groups.all fun group => group ≤ 0xffff

/-- An IPv6 literal as eight numbers, when it is one. What comes here is in ASCII. -/
def v6Groups (value : List Char) : Option (List Nat) :=
  let v := unzoned ((trimmed value).map Char.toLower)
  if isIPv6 v then groupsOf (withoutDots v) else none

def v4Of (high low : Nat) : Quad := ⟨high >>> 8, high &&& 0xff, low >>> 8, low &&& 0xff⟩

def classifyV6 (groups : List Nat) : AddressClass :=
  let g := fun index => groups.getD index 0
  let zeroTo := fun count => (groups.take count).all fun group => group == 0
  if zeroTo 7 ∧ g 7 = 0 then .unspecified
  else if zeroTo 7 ∧ g 7 = 1 then .loopback
  else if zeroTo 5 ∧ g 5 = 0xffff then classifyV4 (v4Of (g 6) (g 7))
  else if zeroTo 6 then classifyV4 (v4Of (g 6) (g 7))
  else if zeroTo 4 ∧ g 4 = 0xffff ∧ g 5 = 0 then classifyV4 (v4Of (g 6) (g 7))
  else if g 0 = 0x64 ∧ g 1 = 0xff9b ∧ ((groups.take 6).drop 2).all fun group => group == 0 then
    classifyV4 (v4Of (g 6) (g 7))
  else if g 0 = 0x64 ∧ g 1 = 0xff9b ∧ g 2 = 1 then classifyV4 (v4Of (g 6) (g 7))
  else if g 0 = 0x2002 then classifyV4 (v4Of (g 1) (g 2))
  else if g 0 &&& 0xffc0 = 0xfe80 then .linkLocal
  else if g 0 &&& 0xffc0 = 0xfec0 then .private_
  else if g 0 = 0xfd00 ∧ g 1 = 0x0ec2 then .metadata
  else if g 0 &&& 0xfe00 = 0xfc00 then .private_
  else if g 0 &&& 0xff00 = 0xff00 then .multicast
  else .public_

/-- A text without a bracket before it and one behind it. -/
def unbracketed (text : List Char) : List Char :=
  let opened := if text.head? = some '[' then text.tail else text
  if opened.getLast? = some ']' then opened.dropLast else opened

/-- The class of a literal, when the text is one. -/
def classifyAddress (value : List Char) : Option AddressClass :=
  let v := unbracketed (trimmed value)
  match literalFamily v with
  | some .v4 => some (classifyV4 (v4Parts v))
  | some .v6 => (v6Groups v).map classifyV6
  | none => none

end Geeboard.Net
