/-
This file is the grammar the engine reads an expression by.

It is the language's grammar for patterns without flags, with what its Annex B adds to
it, as a relation between a text and the structure of it. A rule reads what stands at
the front of a text and says what is left. What each atom matches does not matter here,
only where it ends and what may stand after it.
-/

import Geeboard.Games.SafeRegex

namespace Geeboard.Games.SafeRegex

open Text

/-! ### Escapes and classes -/

/-- What the grammar asks about a whole pattern: how many groups it captures, and whether one of
them has a name. -/
structure PatternContext where
  groups : Nat
  named : Bool

def isHex (char : Char) : Bool :=
  char.isDigit || ('a' ≤ char && char ≤ 'f') || ('A' ≤ char && char ≤ 'F')

def isNameChar (char : Char) : Bool :=
  char.isAlphanum || char = '_' || char = '$' || char = '{' || char = '}' || 128 ≤ char.toNat

/-- The text of a group's name. Which characters are letters the engine says: this takes all that
could be, and the escapes of any. -/
def isName : List Char → Bool
  | [] => true
  | '\\' :: 'u' :: rest => isName rest
  | char :: rest => isNameChar char && isName rest

/-- What follows a group's name and the bracket that ends it. -/
def afterName (source : List Char) : Option (List Char) :=
  match source.span (· != '>') with
  | (name, '>' :: rest) => if name.isEmpty || !isName name then none else some rest
  | _ => none

/-- What follows so many hexadecimal digits, or the same text where there are fewer. -/
def afterHex (count : Nat) (source : List Char) : List Char :=
  if (source.take count).length = count && (source.take count).all isHex then source.drop count
  else source

/-- What follows the octal digits of a text, at most so many of them. -/
def afterOctal : Nat → List Char → List Char
  | most + 1, digit :: rest => if isOctal digit then afterOctal most rest else digit :: rest
  | _, source => source

/-- What follows an escape that starts with a digit: a reference when there are that many groups,
and otherwise an octal number up to 377, or one digit. -/
def afterDigit (ctx : PatternContext) (digit : Char) (rest : List Char) : List Char :=
  if digit ≠ '0' ∧ decimal (digit :: rest.takeWhile Char.isDigit) ≤ ctx.groups then
    rest.dropWhile Char.isDigit
  else if digit ≤ '3' then afterOctal 2 rest
  else if digit ≤ '7' then afterOctal 1 rest
  else rest

/-- What follows an escape, from after its backslash. A backslash in front of a `c` that no letter
follows is a character by itself. -/
def afterEscape (ctx : PatternContext) (source : List Char) : Option (List Char) :=
  match source with
  | [] => none
  | 'c' :: letter :: rest => if letter.isAlpha then some rest else some source
  | ['c'] => some source
  | 'x' :: rest => some (afterHex 2 rest)
  | 'u' :: rest => some (afterHex 4 rest)
  | 'k' :: rest =>
    if ctx.named then
      match rest with
      | '<' :: rest => afterName rest
      | _ => none
    else some rest
  | char :: rest => if char.isDigit then some (afterDigit ctx char rest) else some rest

/-- The characters that stand for themselves, and the dot. -/
def isPlain (char : Char) : Bool :=
  !(['^', '$', '\\', '*', '+', '?', '(', ')', '[', '|'].contains char)

/-- An atom that may be repeated. A class ends at its first bracket that is not escaped, also where
nothing stands before it. -/
inductive Atom (ctx : PatternContext) : List Char → List Char → Prop where
  | char (char : Char) (rest : List Char) (plain : isPlain char)
      (single : char = '{' → counted (char :: rest) = none) : Atom ctx (char :: rest) rest
  | escape (next : Char) (rest after : List Char) (atom : next ≠ 'b' ∧ next ≠ 'B')
      (read : afterEscape ctx (next :: rest) = some after) : Atom ctx ('\\' :: next :: rest) after
  | charClass (rest after : List Char) (read : afterClass rest = some after) :
      Atom ctx ('[' :: rest) after

/-- What asserts something about a place, and cannot be repeated. -/
inductive Assertion : List Char → List Char → Prop where
  | start (rest : List Char) : Assertion ('^' :: rest) rest
  | finish (rest : List Char) : Assertion ('$' :: rest) rest
  | boundary (rest : List Char) : Assertion ('\\' :: 'b' :: rest) rest
  | inner (rest : List Char) : Assertion ('\\' :: 'B' :: rest) rest

/-! ### Quantifiers -/

/-- A quantifier without the mark that makes it lazy. -/
inductive Repeats : List Char → Quantifier → List Char → Prop where
  | star (rest : List Char) : Repeats ('*' :: rest) ⟨0, none⟩ rest
  | plus (rest : List Char) : Repeats ('+' :: rest) ⟨1, none⟩ rest
  | optional (rest : List Char) : Repeats ('?' :: rest) ⟨0, some 1⟩ rest
  | exactly (source least rest : List Char) (braces : counted source = some (least, none, rest)) :
      Repeats source ⟨decimal least, some (decimal least)⟩ rest
  | atLeast (source least rest : List Char)
      (braces : counted source = some (least, some [], rest)) :
      Repeats source ⟨decimal least, none⟩ rest
  | between (source least most rest : List Char)
      (braces : counted source = some (least, some most, rest)) (given : most ≠ [])
      (order : decimal least ≤ decimal most) :
      Repeats source ⟨decimal least, some (decimal most)⟩ rest

/-- A quantifier, or none. Nothing else starts with what a quantifier starts with. -/
inductive Quantified : List Char → Option Quantifier → List Char → Prop where
  | once (source : List Char) : Quantified source none source
  | greedy (source rest : List Char) (quant : Quantifier) (repeated : Repeats source quant rest) :
      Quantified source (some quant) rest
  | lazy (source rest : List Char) (quant : Quantifier)
      (repeated : Repeats source quant ('?' :: rest)) : Quantified source (some quant) rest

/-! ### Groups and alternatives -/

/-- How a group starts, from after its parenthesis. -/
inductive GroupStart : List Char → List Char → Prop where
  | capture (rest : List Char) (bare : rest.head? ≠ some '?') : GroupStart rest rest
  | apart (rest : List Char) : GroupStart ('?' :: ':' :: rest) rest
  | ahead (rest : List Char) : GroupStart ('?' :: '=' :: rest) rest
  | notAhead (rest : List Char) : GroupStart ('?' :: '!' :: rest) rest
  | named (rest after : List Char) (name : afterName rest = some after) :
      GroupStart ('?' :: '<' :: rest) after
  | modifiers (flags rest : List Char) (some_ : flags ≠ [])
      (known : ∀ flag ∈ flags, flag ∈ ['i', 'm', 's', '-']) :
      GroupStart ('?' :: (flags ++ ':' :: rest)) rest

/-- A look at what stands before. It cannot be repeated. -/
inductive LookBehind : List Char → List Char → Prop where
  | behind (rest : List Char) : LookBehind ('?' :: '<' :: '=' :: rest) rest
  | notBehind (rest : List Char) : LookBehind ('?' :: '<' :: '!' :: rest) rest

/-- The structure a text has in the grammar, and what is left after it. -/
inductive Reads (ctx : PatternContext) : List Char → Alternation → List Char → Prop where
  | nothing (rest : List Char) : Reads ctx rest .done rest
  | bar (source rest : List Char) (tree : Alternation) (branch : Reads ctx source tree rest) :
      Reads ctx ('|' :: source) (.bar tree) rest
  | assertion (source next rest : List Char) (tree : Alternation) (asserts : Assertion source next)
      (branch : Reads ctx next tree rest) : Reads ctx source (.atom none tree) rest
  | atom (source text next rest : List Char) (quant : Option Quantifier) (tree : Alternation)
      (atom : Atom ctx source text) (quantified : Quantified text quant next)
      (branch : Reads ctx next tree rest) : Reads ctx source (.atom quant tree) rest
  | group (source inner after next rest : List Char) (quant : Option Quantifier)
      (body tree : Alternation) (starts : GroupStart source inner)
      (inside : Reads ctx inner body (')' :: after)) (quantified : Quantified after quant next)
      (branch : Reads ctx next tree rest) : Reads ctx ('(' :: source) (.group quant body tree) rest
  | lookBehind (source inner next rest : List Char) (body tree : Alternation)
      (starts : LookBehind source inner) (inside : Reads ctx inner body (')' :: next))
      (branch : Reads ctx next tree rest) : Reads ctx ('(' :: source) (.group none body tree) rest

end Geeboard.Games.SafeRegex
