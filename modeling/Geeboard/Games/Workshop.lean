/-
This file is about the descriptions of Workshop items, and the blocks the panel reads
them into.

A description is words with tags in brackets. A tag begins or ends a heading, a quote,
a list or one of its items, makes what follows bold, or a link; some begin an element
that is taken as it is, or left out, up to its closing tag. Words are collected in spans
until something ends what they are part of, and then go to the list that is open, or
become a block. Each character carries the place it has in the description, so that it
can be said what became of it; nothing is decided by the places.
-/

import Geeboard.Text.Json

namespace Geeboard.Games.Workshop

open Text (CodeUnit Units charOf codes isSpace)

/-- A character of a description and its place there. -/
structure Sign where
  unit : CodeUnit
  place : Nat
  deriving DecidableEq, Repr

abbrev Signs := List Sign

def Sign.is (sign : Sign) (char : Char) : Bool := sign.unit == Text.code char

def Sign.blank (sign : Sign) : Bool := isSpace (charOf sign.unit)

/-! ### Blocks -/

structure Span where
  text : Signs
  bold : Bool
  italic : Bool
  underline : Bool
  strike : Bool
  href : Option Units
  deriving DecidableEq, Repr

inductive Block where
  | heading (level : Nat) (spans : List Span)
  | paragraph (spans : List Span)
  | quote (spans : List Span)
  | list (ordered : Bool) (items : List (List Span))
  | code (text : Signs)
  | rule
  deriving DecidableEq, Repr

/-- Longer than any description that is kept. -/
def MAX_INPUT : Nat := 40000

def MAX_BLOCKS : Nat := 400

/-! ### Addresses -/

/-- An address as it was read. -/
structure Url where
  protocol : Units
  href : Units

def isQuote (unit : CodeUnit) : Bool := unit == Text.code '"' || unit == Text.code '\''

def blankUnit (unit : CodeUnit) : Bool := isSpace (charOf unit)

/-- A text without the blanks around it. -/
def trimUnits (text : Units) : Units := (text.dropWhile blankUnit).rdropWhile blankUnit

/-- A text without a quote it begins with and one that it ends with. -/
def unquoted (text : Units) : Units :=
  let opened := if text.head?.any isQuote then text.tail else text
  if opened.getLast?.any isQuote then opened.dropLast else opened

def isWeb (url : Url) : Bool :=
  url.protocol == codes "https:".toList || url.protocol == codes "http:".toList

def safeHref (parseUrl : Units → Option Url) (raw : Units) : Option Units :=
  if raw.isEmpty then none
  else ((parseUrl (unquoted (trimUnits raw))).filter isWeb).map Url.href

/-! ### Tags -/

scoped instance hasUnits : NeZero 65536 := ⟨by decide⟩

def lowerUnit (unit : CodeUnit) : CodeUnit :=
  if 65 ≤ unit.val && unit.val ≤ 90 then Fin.ofNat 65536 (unit.val + 32) else unit

def isNameUnit (unit : CodeUnit) : Bool :=
  let lower := (lowerUnit unit).val
  (48 ≤ lower && lower ≤ 57) || (97 ≤ lower && lower ≤ 122) || unit == Text.code '*'

structure Tag where
  closing : Bool
  name : Units
  value : Option Units
  deriving DecidableEq, Repr

/-- What follows a tag's name: its value, if it has one, and the bracket at the end. -/
def tagEnd (closing : Bool) (name : Units) : Signs → Option (Tag × Signs)
  | [] => none
  | sign :: rest =>
    if sign.is ']' then some (⟨closing, name, none⟩, rest)
    else if sign.is '=' then
      let ends (sign : Sign) := sign.is ']' || sign.is '\n'
      let value := (rest.takeWhile fun sign => !ends sign).map Sign.unit
      match rest.dropWhile fun sign => !ends sign with
      | last :: after =>
        if last.is ']' && value.length ≤ 500 then some (⟨closing, name, some value⟩, after)
        else none
      | [] => none
    else none

/-- What follows a tag's bracket and slash: its name, of twenty characters at most, and the rest. -/
def tagInside (closing : Bool) (inside : Signs) : Option (Tag × Signs) :=
  let name := (inside.takeWhile fun sign => isNameUnit sign.unit).map Sign.unit
  if name.isEmpty || 20 < name.length then none
  else tagEnd closing (name.map lowerUnit) (inside.dropWhile fun sign => isNameUnit sign.unit)

/-- The tag that a text begins with, and what is behind it. -/
def tagAt : Signs → Option (Tag × Signs)
  | [] => none
  | sign :: rest =>
    if sign.is '[' then
      if rest.head?.any fun sign => sign.is '/' then tagInside true rest.tail
      else tagInside false rest
    else none

/-- The first tag of a text, with what is before and behind it. -/
def nextTag : Signs → Option (Signs × Tag × Signs)
  | [] => none
  | sign :: rest =>
    match tagAt (sign :: rest) with
    | some (tag, after) => some ([], tag, after)
    | none => (nextTag rest).map fun found => (sign :: found.1, found.2)

/-- The elements that are taken as they are, and those that are left out. -/
inductive Raw where
  | code | noparse | img | previewyoutube
  deriving DecidableEq, Repr

def Raw.name : Raw → List Char
  | .code => "code".toList
  | .noparse => "noparse".toList
  | .img => "img".toList
  | .previewyoutube => "previewyoutube".toList

/-- What a tag does. -/
inductive Mark where
  | bold | italic | underline | strike | url | heading (level : Nat) | quote
  | list (ordered : Bool) | item | rule | raw (element : Raw) | other
  deriving DecidableEq, Repr

def MARKS : List (List Char × Mark) :=
  [("b".toList, .bold), ("i".toList, .italic), ("u".toList, .underline), ("s".toList, .strike),
    ("strike".toList, .strike), ("url".toList, .url), ("h1".toList, .heading 1),
    ("h2".toList, .heading 2), ("h3".toList, .heading 3), ("quote".toList, .quote),
    ("list".toList, .list false), ("olist".toList, .list true), ("*".toList, .item),
    ("hr".toList, .rule), ("code".toList, .raw .code), ("noparse".toList, .raw .noparse),
    ("img".toList, .raw .img), ("previewyoutube".toList, .raw .previewyoutube)]

def Tag.mark (tag : Tag) : Mark :=
  ((MARKS.find? fun entry => codes entry.1 == tag.name).map Prod.snd).getD .other

/-- The element that a tag begins. -/
def Tag.opens (tag : Tag) : Option Raw :=
  match tag.mark with
  | .raw element => if tag.closing then none else some element
  | _ => none

/-- Where a pattern first stands in a text that is read from a place on. -/
def indexFrom (pattern : Units) : Nat → Units → Option Nat
  | _, [] => none
  | at_, unit :: rest =>
    if pattern.isPrefixOf (unit :: rest) then some at_ else indexFrom pattern (at_ + 1) rest

def closingTag (element : Raw) : Units := codes ("[/".toList ++ element.name ++ "]".toList)

/-- Where an element ends whose text begins at a place, looked for in a copy of the description in
small letters. -/
def closeOf (small : Units) (from_ : Nat) (element : Raw) : Option Nat :=
  indexFrom (closingTag element) from_ (small.drop from_)

/-- Everything up to the closing tag, as it is, and the place behind it. -/
def rawUntil (small : Units) (source : Signs) (from_ : Nat) (element : Raw) : Signs × Nat :=
  match closeOf small from_ element with
  | none => (source.drop from_, source.length)
  | some close => ((source.take close).drop from_, close + element.name.length + 3)

/-! ### What has been read -/

structure ListOpen where
  ordered : Bool
  items : List (List Span)

structure State where
  blocks : List Block := []
  spans : List Span := []
  bold : Nat := 0
  italic : Nat := 0
  underline : Nat := 0
  strike : Nat := 0
  href : Option Units := none
  heading : Option Nat := none
  quote : Nat := 0
  list : Option ListOpen := none
  bareUrl : Option Nat := none

/-- Whether there may be another block. -/
def State.hasRoom (limit : Option Nat) (state : State) : Bool :=
  limit.all fun most => state.blocks.length < most

def State.push (limit : Option Nat) (block : Block) (state : State) : State :=
  if state.hasRoom limit then { state with blocks := state.blocks ++ [block] } else state

def trimFirst : List Span → List Span
  | [] => []
  | span :: rest => { span with text := span.text.dropWhile Sign.blank } :: rest

def trimLast : List Span → List Span
  | [] => []
  | [span] => [{ span with text := span.text.rdropWhile Sign.blank }]
  | span :: next :: rest => span :: trimLast (next :: rest)

def saying (spans : List Span) : List Span := spans.filter fun span => !span.text.isEmpty

/-- Spans without the blanks around them all. -/
def trimmed (spans : List Span) : List Span := saying (trimLast (trimFirst (saying spans)))

/-- The items of a list with more spans in the last one. -/
def addToLast (done : List Span) : List (List Span) → List (List Span)
  | [] => [done]
  | [item] => [item ++ done]
  | item :: next :: rest => item :: addToLast done (next :: rest)

/-- What spans become that are in no list. -/
def State.blockOf (state : State) (done : List Span) : Block :=
  match state.heading with
  | some level => .heading level done
  | none => if 0 < state.quote then .quote done else .paragraph done

/-- The collected spans go to what they are part of. -/
def State.flush (limit : Option Nat) (state : State) : State :=
  let done := trimmed state.spans
  let bare := { state with spans := [] }
  if done.isEmpty then bare
  else match state.list with
    | some list => { bare with list := some { list with items := addToLast done list.items } }
    | none => bare.push limit (state.blockOf done)

def State.addText (text : Signs) (state : State) : State :=
  if text.isEmpty then state
  else { state with
    spans := state.spans ++ [
      { text
        bold := 0 < state.bold
        italic := 0 < state.italic
        underline := 0 < state.underline
        strike := 0 < state.strike
        href := state.href.filter fun href => !href.isEmpty }] }

/-- A text with one line end where there are several together. -/
def oneLineEnd : Bool → Signs → Signs
  | _, [] => []
  | after, sign :: rest =>
    if sign.is '\n' then if after then oneLineEnd true rest else sign :: oneLineEnd true rest
    else sign :: oneLineEnd false rest

/-- What is behind the blank lines that a text begins with. -/
def afterBlankLine : Signs → Option Signs
  | [] => none
  | sign :: rest =>
    if sign.is '\n' then
      match rest.dropWhile fun sign => sign.is ' ' || sign.is '\t' with
      | next :: more => if next.is '\n' then some (more.dropWhile fun sign => sign.is '\n') else none
      | [] => none
    else none

/-- The parts of a text between its blank lines, after some characters that are passed over. -/
def partsFrom : Nat → Signs → List Signs
  | _, [] => [[]]
  | skip + 1, _ :: rest => partsFrom skip rest
  | 0, sign :: rest =>
    match afterBlankLine (sign :: rest) with
    | some after => [] :: partsFrom (rest.length - after.length) rest
    | none => (partsFrom 0 rest).modifyHead (sign :: ·)

/-- Text between tags. A blank line ends a paragraph; inside a list or a heading it is only a line
break. -/
def State.text (limit : Option Nat) (raw : Signs) (state : State) : State :=
  if state.list.isSome || state.heading.isSome then state.addText (oneLineEnd false raw)
  else match partsFrom 0 raw with
    | [] => state
    | first :: parts =>
      parts.foldl (fun state part => (state.flush limit).addText part) (state.addText first)

/-- A style goes on to another depth. -/
def depth (closing : Bool) (depth : Nat) : Nat := if closing then depth - 1 else depth + 1

/-- The spans from a place on with an address. -/
def linkFrom (at_ : Nat) (href : Units) (spans : List Span) : List Span :=
  spans.take at_ ++ (spans.drop at_).map fun span => { span with href := some href }

/-- A link begins or ends; the text of one with no address is its own address. -/
def State.url (parseUrl : Units → Option Url) (tag : Tag) (state : State) : State :=
  if tag.closing then
    match state.bareUrl with
    | none => { state with href := none }
    | some at_ =>
      let linked := (state.spans.drop at_).flatMap Span.text
      match (safeHref parseUrl (linked.map Sign.unit)).filter fun href => !href.isEmpty with
      | none => { state with bareUrl := none, href := none }
      | some href =>
        { state with spans := linkFrom at_ href state.spans, bareUrl := none, href := none }
  else match tag.value with
    | some value => { state with href := safeHref parseUrl value }
    | none => { state with bareUrl := some state.spans.length }

/-- A list as a block, when one of its items says something. -/
def State.pushList (limit : Option Nat) (state : State) : State :=
  match state.list with
  | none => state
  | some list =>
    let items := list.items.filter fun item => !item.isEmpty
    if items.isEmpty then state else state.push limit (.list list.ordered items)

def State.item (state : State) : State :=
  { state with list := state.list.map fun list => { list with items := list.items ++ [[]] } }

/-- What a tag does that begins no element. -/
def State.tag (limit : Option Nat) (parseUrl : Units → Option Url) (tag : Tag) (state : State) :
    State :=
  match tag.mark with
  | .bold => { state with bold := depth tag.closing state.bold }
  | .italic => { state with italic := depth tag.closing state.italic }
  | .underline => { state with underline := depth tag.closing state.underline }
  | .strike => { state with strike := depth tag.closing state.strike }
  | .url => state.url parseUrl tag
  | .heading level => { state.flush limit with heading := if tag.closing then none else some level }
  | .quote => { state.flush limit with quote := depth tag.closing state.quote }
  | .list ordered =>
    let flushed := state.flush limit
    if tag.closing then { flushed.pushList limit with list := none }
    else { flushed with list := flushed.list.or (some ⟨ordered, []⟩) }
  | .item => (state.flush limit).item
  | .rule => (state.flush limit).push limit .rule
  | .raw _ => state
  | .other => state

/-- What an element does whose text was read to its closing tag. -/
def State.element (limit : Option Nat) (element : Raw) (body : Signs) (state : State) : State :=
  match element with
  | .code =>
    let kept := (body.dropWhile fun sign => sign.is '\n').rdropWhile Sign.blank
    if kept.isEmpty then state.flush limit else (state.flush limit).push limit (.code kept)
  | .noparse => state.text limit body
  | .img => state
  | .previewyoutube => state

/-! ### Reading a description -/

section Reading

variable (limit : Option Nat) (lower : Units → Units) (parseUrl : Units → Option Url)
  (source : Signs)

/-- Reads on from a place, for as many turns as are given. -/
def readFrom : Nat → Nat → State → State
  | 0, _, state => state
  | turns + 1, at_, state =>
    if at_ < source.length && state.hasRoom limit then
      match nextTag (source.drop at_) with
      | none => state.text limit (source.drop at_)
      | some (before, tag, rest) =>
        let said := state.text limit before
        match tag.opens with
        | none => readFrom turns (source.length - rest.length) (said.tag limit parseUrl tag)
        | some element =>
          let read := rawUntil (lower (source.map Sign.unit)) source (source.length - rest.length)
            element
          readFrom turns read.2 (said.element limit element read.1)
    else state

/-- What is left is flushed, and an open list closed. -/
def State.finish (state : State) : List Block := ((state.flush limit).pushList limit).blocks

/-- The blocks of a source. Every turn takes at least one character. -/
def blocksOf : List Block :=
  (readFrom limit lower parseUrl source source.length 0 {}).finish limit

end Reading

/-- A text whose lines end in line feeds only. -/
def unixFrom : Bool → Units → Units
  | _, [] => []
  | after, unit :: rest =>
    if unit = Text.code '\r' then Text.code '\n' :: unixFrom true rest
    else if after && unit == Text.code '\n' then unixFrom false rest
    else unit :: unixFrom false rest

/-- The characters of a text with their places. -/
def placed (text : Units) : Signs := text.zipIdx.map fun entry => ⟨entry.1, entry.2⟩

def sourceOf (input : Units) : Signs := placed (unixFrom false input)

def parseWorkshopDescription (lower : Units → Units) (parseUrl : Units → Option Url)
    (input : Units) : List Block :=
  blocksOf (some MAX_BLOCKS) lower parseUrl (sourceOf (input.take MAX_INPUT))

end Geeboard.Games.Workshop
