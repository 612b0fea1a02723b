/-
This file is about kinds of names: a name begins with one kind of character and
goes on with another. A path is names with slashes between, and the reference of
an image is a path with the port of its registry, its tag and its digest put to
it.
-/

import Mathlib.Data.List.Basic

namespace Text

/-! ### Names -/

/-- A text that begins with one kind of character and goes on with another. -/
def beginsThen (first rest : Char → Bool) : List Char → Bool
  | [] => false
  | char :: chars => first char && chars.all rest

/-- A text of one kind that is as short as that. -/
def upTo (most : Nat) (pattern : List Char → Bool) (text : List Char) : Bool :=
  pattern text && text.length ≤ most

/-- The names a variable can have. -/
def isVariable : List Char → Bool :=
  beginsThen (fun char => char.isAlpha || char == '_') fun char => char.isAlphanum || char == '_'

def isLowerDigit (char : Char) : Bool := char.isLower || char.isDigit

/-- A letter or a digit, or one of the marks that names of files have. -/
def isFileChar (char : Char) : Bool :=
  char.isAlphanum || char == '.' || char == '_' || char == '-'

def isSegment : List Char → Bool := beginsThen Char.isAlphanum isFileChar

/-- An absolute path of one to five levels. -/
def isMountPath (text : List Char) : Bool :=
  match text.splitOn '/' with
  | [] :: segments => 1 ≤ segments.length && segments.length ≤ 5 && segments.all isSegment
  | _ => false

def SYSTEM_ROOTS : List (List Char) :=
  ["bin", "boot", "dev", "etc", "lib", "lib64", "proc", "sbin", "sys", "usr"].map String.toList

/-- A path whose directory a system needs to run. -/
def isSystemPath (text : List Char) : Bool :=
  SYSTEM_ROOTS.contains ((text.splitOn '/').tail.head?.getD []) ||
    text == "/var".toList || text == "/root".toList

/-! ### Images -/

def isImageName : List Char → Bool :=
  beginsThen isLowerDigit fun char => isLowerDigit char || char == '.' || char == '_' || char == '-'

def isDigits (text : List Char) : Bool := !text.isEmpty && text.all Char.isDigit

def isTag (text : List Char) : Bool :=
  !text.isEmpty && text.length ≤ 128 && text.all isFileChar

/-- The digest of an image: `sha256:` and 64 digits in base sixteen. -/
def isDigest (text : List Char) : Bool :=
  "sha256:".toList.isPrefixOf text && (text.drop 7).length == 64 &&
    (text.drop 7).all fun char => char.isDigit || ('a' ≤ char && char ≤ 'f')

/-- The first name of a reference, with or without a port. -/
def isHead (text : List Char) : Bool :=
  match text.splitOn ':' with
  | [name] => isImageName name
  | [name, port] => isImageName name && isDigits port
  | _ => false

/-- The last name of a reference, with or without a tag. -/
def isLast (text : List Char) : Bool :=
  match text.splitOn ':' with
  | [name] => isImageName name
  | [name, tag] => isImageName name && isTag tag
  | _ => false

/-- The names of a reference: ports come with the first one, a tag with the last one. -/
def isRepository (text : List Char) : Bool :=
  match text.splitOn '/' with
  | [] => false
  | [only_] =>
    match only_.splitOn ':' with
    | [name, port, tag] => isImageName name && isDigits port && isTag tag
    | _ => isHead only_ || isLast only_
  | head :: names =>
    isHead head && names.dropLast.all isImageName && isLast (names.getLast?.getD [])

/-- A reference of an image, as an agent takes it. -/
def isReference (text : List Char) : Bool :=
  match text.splitOn '@' with
  | [repository] => isRepository repository
  | [repository, digest] => isRepository repository && isDigest digest
  | _ => false

/-! ### What is in a name -/

theorem exists_of_beginsThen {first rest : Char → Bool} {text : List Char}
    (begins : beginsThen first rest text = true) : ∃ char chars, text = char :: chars ∧
      first char = true ∧ ∀ other ∈ chars, rest other = true := by
  cases text with
  | nil => cases begins
  | cons char chars =>
    obtain ⟨starts, goes⟩ := Bool.and_eq_true_iff.mp begins
    exact ⟨char, chars, rfl, starts, List.all_eq_true.mp goes⟩

end Text
