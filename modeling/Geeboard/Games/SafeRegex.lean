/-
This file is about the expressions a manifest may carry.

An expression is read for its structure only: its groups, the alternations in them,
and the quantifier each thing carries. What would take a backtracking engine too
long is refused by that structure. A branch that goes on, a bar, an atom and a group
are the four ways an alternation continues.
-/

import Geeboard.Games.Validation

namespace Geeboard.Games.SafeRegex

open Text

def MAX_PATTERN_LENGTH : Nat := 200
def MAX_COUNT : Nat := 100
def MAX_UNBOUNDED : Nat := 3
def MAX_NESTED_REPETITIONS : Nat := 64

/-! ### Structure -/

/-- How often something repeats. Without a `max` there is no bound. -/
structure Quantifier where
  min : Nat
  max : Option Nat
  deriving DecidableEq, Repr

/-- The branches of an alternation, each thing with what comes after it. -/
inductive Alternation where
  | done
  | bar (rest : Alternation)
  | atom (quant : Option Quantifier) (rest : Alternation)
  | group (quant : Option Quantifier) (body rest : Alternation)
  deriving DecidableEq, Repr

/-- Why an expression is refused. -/
abbrev Unsafe := String

/-! ### Reading -/

/-- A counted repeat, as the expression `\{(\d+)(,(\d*))?\}` takes it: its digits, those after the
comma if there is one, and what follows. -/
def counted (source : List Char) : Option (List Char × Option (List Char) × List Char) :=
  match source with
  | '{' :: rest =>
    let least := rest.takeWhile Char.isDigit
    if least.isEmpty then none
    else match rest.dropWhile Char.isDigit with
      | '}' :: rest => some (least, none, rest)
      | ',' :: more =>
        match more.dropWhile Char.isDigit with
        | '}' :: rest => some (least, some (more.takeWhile Char.isDigit), rest)
        | _ => none
      | _ => none
  | _ => none

/-- A run of digits as a number; none when it is too big to be a finite one. -/
def numberOf (digits : List Char) : Option Nat := wholeDouble (decimal digits) 1

/-- The bounds of a counted repeat. -/
def countedBounds (least : List Char) (most : Option (List Char)) : Except Unsafe Quantifier :=
  let min := numberOf least
  let max := match most with
    | none => min
    | some [] => none
    | some digits => numberOf digits
  match min with
  | none => .error s!"a repeat count is over {MAX_COUNT}"
  | some min =>
    if MAX_COUNT < min || max.any (MAX_COUNT < ·) then
      .error s!"a repeat count is over {MAX_COUNT}"
    else if max.any (· < min) then .error "a repeat count runs backwards"
    else .ok ⟨min, max⟩

/-- A quantifier's own text, and what follows it. -/
def quantifierPrefix (source : List Char) : Except Unsafe (Option Quantifier × List Char) :=
  match source with
  | '*' :: rest => .ok (some ⟨0, none⟩, rest)
  | '+' :: rest => .ok (some ⟨1, none⟩, rest)
  | '?' :: rest => .ok (some ⟨0, some 1⟩, rest)
  | _ =>
    match counted source with
    | some (least, most, rest) => do return (some (← countedBounds least most), rest)
    | none => .ok (none, source)

/-- A quantifier with the mark that makes it lazy. -/
def parseQuantifier (source : List Char) : Except Unsafe (Option Quantifier × List Char) := do
  match ← quantifierPrefix source with
  | (none, rest) => return (none, rest)
  | (some quant, rest) =>
    let rest := match rest with
      | '?' :: rest => rest
      | rest => rest
    if rest.head? = some '+' then
      throw "a possessive quantifier is not part of the expression language"
    return (some quant, rest)

/-- What follows the end of a character class, from inside it. -/
def afterClass : List Char → Option (List Char)
  | [] => none
  | ']' :: rest => some rest
  | '\\' :: _ :: rest => afterClass rest
  | _ :: rest => afterClass rest

/-- A class after its bracket, the mark that negates it, and a bracket that comes first. -/
def classContents (source : List Char) : List Char :=
  let contents := match source with
    | '^' :: rest => rest
    | rest => rest
  match contents with
  | ']' :: rest => rest
  | rest => rest

def parseAtomText (source : List Char) : Except Unsafe (List Char) :=
  match source with
  | ['\\'] => .error "the expression ends in a backslash"
  | '\\' :: next :: rest =>
    if '1' ≤ next ∧ next ≤ '9' then
      .error "a back-reference (\\1) reads what the expression already matched"
    else if next = 'k' then
      .error "a named back-reference (\\k<name>) reads what the expression already matched"
    else .ok rest
  | '[' :: rest =>
    match afterClass (classContents rest) with
    | some rest => .ok rest
    | none => .error "a character class is not closed"
  | _ :: rest => .ok rest
  | [] => .ok []

/-- What is inside a group, from after its parenthesis. -/
def groupStart (source : List Char) : Except Unsafe (List Char) :=
  match source with
  | '?' :: '<' :: '=' :: _ => .error "a look-behind reads text the expression has already passed"
  | '?' :: '<' :: '!' :: _ => .error "a look-behind reads text the expression has already passed"
  | '?' :: ':' :: rest => .ok rest
  | '?' :: '=' :: rest => .ok rest
  | '?' :: '!' :: rest => .ok rest
  | '?' :: '<' :: rest =>
    match rest.dropWhile (· != '>') with
    | _ :: rest => .ok rest
    | [] => .error "a group name is not closed"
  | '?' :: _ => .error "an unknown group syntax"
  | rest => .ok rest

/-- The branches up to a closing parenthesis or the end. Every step reads something, so a text is
read in as many steps as it is long. -/
def parseAlternation : Nat → List Char → Except Unsafe (Alternation × List Char)
  | 0, source => .ok (.done, source)
  | steps + 1, source =>
    match source with
    | [] => .ok (.done, [])
    | ')' :: _ => .ok (.done, source)
    | '|' :: rest => do
      let (alternation, rest) ← parseAlternation steps rest
      return (.bar alternation, rest)
    | '(' :: rest => do
      let (body, rest) ← parseAlternation steps (← groupStart rest)
      match rest with
      | ')' :: rest =>
        let (quant, rest) ← parseQuantifier rest
        let (alternation, rest) ← parseAlternation steps rest
        return (.group quant body alternation, rest)
      | _ => throw "a group is not closed"
    | _ => do
      let (quant, rest) ← parseQuantifier (← parseAtomText source)
      let (alternation, rest) ← parseAlternation steps rest
      return (.atom quant alternation, rest)

/-- The quantifiers without a bound in an expression. -/
def Alternation.unbounded : Alternation → Nat
  | .done => 0
  | .bar rest => rest.unbounded
  | .atom quant rest => (if quant.any (·.max.isNone) then 1 else 0) + rest.unbounded
  | .group quant body rest =>
    body.unbounded + (if quant.any (·.max.isNone) then 1 else 0) + rest.unbounded

def parse (source : List Char) : Except Unsafe Alternation := do
  let (tree, rest) ← parseAlternation (source.length + 1) source
  if rest.isEmpty then return tree else throw "a closing parenthesis has no opening one"

/-! ### The nesting rule -/

/-- Whether a quantifier repeats more than once. -/
def repeats (quant : Option Quantifier) : Bool := quant.any fun quant => quant.max.all (1 < ·)

def hasNoBound (quant : Option Quantifier) : Bool := quant.any fun quant => quant.max.isNone

/-- What an alternation holds, at any depth. -/
structure Inside where
  repeats : Bool
  unbounded : Bool
  alternates : Bool
  deriving DecidableEq, Repr

def inside : Alternation → Inside
  | .done => ⟨false, false, false⟩
  | .bar rest => { inside rest with alternates := true }
  | .atom quant rest =>
    ⟨repeats quant || (inside rest).repeats, hasNoBound quant || (inside rest).unbounded,
      (inside rest).alternates⟩
  | .group quant body rest =>
    ⟨repeats quant || (inside body).repeats || (inside rest).repeats,
      hasNoBound quant || (inside body).unbounded || (inside rest).unbounded,
      (inside body).alternates || (inside rest).alternates⟩

/-- How often something itself repeats; none without a bound. -/
def own (quant : Option Quantifier) : Option Nat :=
  match quant with
  | none => some 1
  | some quant => quant.max

/-- The most times anything inside repeats, with the repetitions of the groups around it. What has
no bound is left to the rule about groups. -/
def repetitions : Alternation → Nat
  | .done => 1
  | .bar rest => repetitions rest
  | .atom quant rest => max ((own quant).getD 1) (repetitions rest)
  | .group quant body rest =>
    max (((own quant).map (· * repetitions body)).getD 1) (repetitions rest)

/-- What a group is refused for. -/
def groupProblem (quant : Option Quantifier) (body : Alternation) : Option String :=
  let within := inside body
  match quant with
  | none => none
  | some quant =>
    match quant.max with
    | none =>
      if within.repeats then
        some ("a group that repeats without a bound holds something that repeats too (`(a+)+`): " ++
          "that is how an expression goes exponential")
      else if within.alternates then
        some ("a group that repeats without a bound holds an alternation (`(a|aa)+`): the " ++
          "branches can match the same text in several ways")
      else none
    | some most =>
      if 3 < most && within.unbounded then
        some "a group repeated more than three times holds something with no bound"
      else if 1 < most && within.repeats && !within.unbounded &&
          MAX_NESTED_REPETITIONS < most * repetitions body then
        some (s!"a group repeated up to {most} times holds something that repeats too, " ++
          s!"{most * repetitions body} repetitions in all (the most is " ++
          s!"{MAX_NESTED_REPETITIONS}): that is `(a+)+` with a ceiling, and it goes " ++
          "exponential all the same")
      else none

def checkNesting : Alternation → Option String
  | .done => none
  | .bar rest => checkNesting rest
  | .atom _ rest => checkNesting rest
  | .group quant body rest =>
    (groupProblem quant body).or ((checkNesting body).or (checkNesting rest))

/-! ### All rules -/

/-- Why an expression may not be in a manifest. Whether it compiles the engine says. -/
def regexProblems (compiles : List Char → Bool) (pattern : List Char) : List String :=
  if pattern.isEmpty then ["the expression is empty"]
  else if MAX_PATTERN_LENGTH < utf16Length pattern then
    [s!"the expression is {utf16Length pattern} characters; the most is {MAX_PATTERN_LENGTH}"]
  else if pattern.any fun char => char.toNat < 0x20 || char.toNat = 0x7f then
    ["the expression holds a control character"]
  else if !compiles pattern then ["the expression does not compile"]
  else match parse pattern with
    | .error problem => [problem]
    | .ok tree =>
      if MAX_UNBOUNDED < tree.unbounded then
        [s!"the expression has {tree.unbounded} quantifiers with no bound (`*`, `+`, `\x7bn,\x7d`)" ++
          s!"; the most is {MAX_UNBOUNDED}"]
      else (checkNesting tree).toList

end Geeboard.Games.SafeRegex
