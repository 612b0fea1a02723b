/-
This file is what the panel knows about the versions of a game.

A game's definition lists its versions. A server names one of them by a link to
the catalog and, for a server older than the link, by the version's label. Two
versions are compared by the version strings of their upstream, piece by piece,
and a version without such a string is ordered with nothing: "cannot tell" is
never "newer".
-/

import Geeboard.Text.Lines
import Mathlib.Tactic.Positivity

namespace Geeboard.Panel

open List

abbrev GameId := String

/-- The id of a version in its game's definition. -/
abbrev VersionId := String

/-- One installable version of a game. -/
structure GameVersion where
  id : VersionId
  label : String
  upstream : Option String
  image : String
  line : Option String := none
  supported : Bool := true
  formerIds : List VersionId := []
  deriving DecidableEq, Repr

/-- How a game is asked whether it has finished saving, and what it then says. -/
structure SaveReady where
  command : String
  pattern : String
  timeoutSeconds : Nat := 60
  deriving DecidableEq, Repr

/-- What a game's console understands. -/
structure ConsoleDialect where
  stopCommand : Option String := none
  stopGraceSeconds : Option Nat := none
  saveCommand : Option String := none
  resumeCommand : Option String := none
  saveReady : Option SaveReady := none
  deriving DecidableEq, Repr

/-- How a game gets onto a node. -/
inductive InstallStrategy where
  | image | steamcmd | download
  deriving DecidableEq, Repr

/-- A game's definition. -/
structure GameDefinition where
  id : GameId
  name : String
  versions : List GameVersion
  console : ConsoleDialect := {}
  install : InstallStrategy := .image
  capabilities : List String := []
  deriving DecidableEq, Repr

/-! ### Which version a server is on -/

/-- A version by its id, or by an id it used to go by. -/
def findVersion (game : GameDefinition) (id : VersionId) : Option GameVersion :=
  (game.versions.find? fun version => version.id == id) <|>
    game.versions.find? fun version => version.formerIds.contains id

/-- The version a server is on: its catalog link first, the stored label for want of one. -/
def versionOfServer (game : GameDefinition) (versionSlug : Option VersionId)
    (versionLabel : String) : Option GameVersion :=
  versionSlug.bind (findVersion game) <|>
    game.versions.find? fun version => version.label == versionLabel

/-! ### Comparing version strings -/

/-- The value of a digit in a base up to sixteen. -/
def digitIn (base : Nat) (char : Char) : Option Nat :=
  let value := if char.isDigit then char.toNat - '0'.toNat
    else if 'a' ≤ char ∧ char ≤ 'f' then char.toNat - 'a'.toNat + 10
    else if 'A' ≤ char ∧ char ≤ 'F' then char.toNat - 'A'.toNat + 10
    else base
  if value < base then some value else none

/-- A run of digits, at least one. -/
def digitsIn (base : Nat) (chars : List Char) : Option Nat :=
  if chars.isEmpty then none else
    chars.foldl (fun total char => do pure ((← total) * base + (← digitIn base char))) (some 0)

/-- The nearest double, halves to the even one, when it is a number. -/
def toDouble (value : Nat) : Option Nat :=
  if value < 2 ^ 53 then some value else
    let unit := 2 ^ (value.log2 - 52)
    let down := value / unit
    let twice := 2 * (value % unit)
    let rounded := (if twice < unit ∨ twice = unit ∧ down % 2 = 0 then down else down + 1) * unit
    if rounded < 2 ^ 1024 then some rounded else none

/-- A piece of a version string read as a number: whole, or not a number here. -/
def wholeNumber (segment : List Char) : Option Nat :=
  match Text.trimmed segment with
  | [] => some 0
  | '0' :: 'x' :: digits => (digitsIn 16 digits).bind toDouble
  | '0' :: 'X' :: digits => (digitsIn 16 digits).bind toDouble
  | '0' :: 'o' :: digits => (digitsIn 8 digits).bind toDouble
  | '0' :: 'O' :: digits => (digitsIn 8 digits).bind toDouble
  | '0' :: 'b' :: digits => (digitsIn 2 digits).bind toDouble
  | '0' :: 'B' :: digits => (digitsIn 2 digits).bind toDouble
  | chars =>
    match chars.span fun char => char != 'e' && char != 'E' with
    | (digits, []) => (digitsIn 10 digits).bind toDouble
    | (digits, _ :: exponent) => do
      toDouble ((← digitsIn 10 digits) * 10 ^ (← digitsIn 10 exponent))

/-- The units a string is compared by. -/
def utf16Units (chars : List Char) : List Nat :=
  chars.flatMap fun char =>
    if char.toNat < 65536 then [char.toNat]
    else [55296 + (char.toNat - 65536) / 1024, 56320 + (char.toNat - 65536) % 1024]

/-- The pieces of a version string. -/
def segments (version : String) : List (List Char) :=
  (version.toList.splitOnP fun char => char == '.' || char == '-' || char == '_' || char == '+')
    |>.filter fun segment => !segment.isEmpty

/-- Two whole numbers. -/
def compareNumbers (first second : Nat) : Int :=
  if first = second then 0 else if first < second then -1 else 1

/-- Two strings, by their units. -/
def compareUnits (first second : List Nat) : Int :=
  if first = second then 0 else if first < second then -1 else 1

/-- Two pieces: as numbers when both are whole numbers, else as strings. -/
def comparePiece (left right : List Char) : Int :=
  match wholeNumber left, wholeNumber right with
  | some first, some second => compareNumbers first second
  | _, _ => compareUnits (utf16Units left) (utf16Units right)

/-- The first pieces that differ decide, and a missing piece is older. -/
def compareSegments : List (List Char) → List (List Char) → Int
  | [], [] => 0
  | [], _ :: _ => -1
  | _ :: _, [] => 1
  | left :: lefts, right :: rights =>
    if comparePiece left right = 0 then compareSegments lefts rights
    else comparePiece left right

/-- Below zero when the first version string is the older one. -/
def compareVersions (first second : String) : Int :=
  compareSegments (segments first) (segments second)

/-- The line of a version. Versions that declare none share one. -/
def lineOf (line : Option String) : String := line.getD ""

/-- The version string a version is ordered by; an empty one is none. -/
def GameVersion.ordered (version : GameVersion) : Option String :=
  version.upstream.filter fun upstream => upstream != ""

/-- Whether one version is older than another, as an update asks it. -/
def isOlder (candidate than : GameVersion) : Bool :=
  match candidate.ordered, than.ordered with
  | some candidate, some than => compareVersions candidate than < 0
  | _, _ => false

theorem compareNumbers_swap (first second : Nat) :
    compareNumbers second first = -compareNumbers first second := by
  unfold compareNumbers
  rcases Nat.lt_trichotomy first second with less | same | greater
  · rw [if_neg (by omega), if_neg (by omega), if_neg (by omega), if_pos less]
    rfl
  · rw [if_pos same, if_pos same.symm]
    rfl
  · rw [if_neg (by omega), if_pos greater, if_neg (by omega), if_neg (by omega)]

theorem compareUnits_swap (first second : List Nat) :
    compareUnits second first = -compareUnits first second := by
  unfold compareUnits
  by_cases same : first = second
  · rw [if_pos same, if_pos same.symm]
    rfl
  · have different : ¬ second = first := fun equal => same equal.symm
    rw [if_neg same, if_neg different]
    by_cases less : first < second
    · rw [if_pos less, if_neg (List.lt_asymm less)]
      rfl
    · have greater : second < first :=
        (List.le_iff_lt_or_eq.mp (List.not_lt.mp less)).resolve_right different
      rw [if_neg less, if_pos greater]

theorem comparePiece_swap (left right : List Char) :
    comparePiece right left = -comparePiece left right := by
  unfold comparePiece
  rcases wholeNumber left with _ | first
  · rcases wholeNumber right with _ | second
    · exact compareUnits_swap _ _
    · exact compareUnits_swap _ _
  · rcases wholeNumber right with _ | second
    · exact compareUnits_swap _ _
    · exact compareNumbers_swap first second

/-- Comparing the other way round turns the sign. -/
theorem compareSegments_swap (lefts rights : List (List Char)) :
    compareSegments rights lefts = -compareSegments lefts rights := by
  induction lefts generalizing rights with
  | nil =>
    cases rights with
    | nil => rfl
    | cons right rights => rfl
  | cons left lefts inductionHypothesis =>
    cases rights with
    | nil => rfl
    | cons right rights =>
      simp only [compareSegments, comparePiece_swap left right, Int.neg_eq_zero]
      by_cases same : comparePiece left right = 0
      · rw [if_pos same, if_pos same]
        exact inductionHypothesis rights
      · rw [if_neg same, if_neg same]

theorem compareUnits_nonpos {first second : List Nat} :
    compareUnits first second ≤ 0 ↔ ¬ second < first := by
  unfold compareUnits
  split
  case isTrue same => exact ⟨fun _ => same ▸ List.lt_irrefl first, fun _ => le_refl 0⟩
  case isFalse different =>
    split
    case isTrue less => exact ⟨fun _ => List.lt_asymm less, fun _ => by omega⟩
    case isFalse greater =>
      have behind : second < first :=
        (List.le_iff_lt_or_eq.mp (List.not_lt.mp greater)).resolve_right fun same =>
          different same.symm
      exact ⟨fun below => absurd below (by omega), fun ahead => absurd behind ahead⟩

theorem compareUnits_trans {first second third : List Nat}
    (near : compareUnits first second ≤ 0) (far : compareUnits second third ≤ 0) :
    compareUnits first third ≤ 0 := by
  rw [compareUnits_nonpos, List.not_lt] at near far ⊢
  exact List.le_trans near far

theorem compareUnits_pos {first second : List Nat} :
    0 < compareUnits first second ↔ second < first := by
  rw [← not_iff_not, Int.not_lt]
  exact compareUnits_nonpos

/-- A version string of whole numbers. -/
def Whole (version : String) : Prop :=
  ∀ segment ∈ segments version, (wholeNumber segment).isSome = true

instance (version : String) : Decidable (Whole version) :=
  inferInstanceAs (Decidable (∀ segment ∈ segments version, (wholeNumber segment).isSome = true))

/-- The numbers of a version string, each piece that is none as nothing. -/
def numbersOf (pieces : List (List Char)) : List Nat :=
  pieces.map fun piece => (wholeNumber piece).getD 0

/-- Where all pieces are whole numbers, the first numbers that differ decide. -/
theorem compareSegments_whole {lefts rights : List (List Char)}
    (left : ∀ piece ∈ lefts, (wholeNumber piece).isSome = true)
    (right : ∀ piece ∈ rights, (wholeNumber piece).isSome = true) :
    compareSegments lefts rights = compareUnits (numbersOf lefts) (numbersOf rights) := by
  induction lefts generalizing rights with
  | nil =>
    cases rights with
    | nil => rfl
    | cons piece rights => exact (if_pos (nil_lt_cons _ _)).symm.trans (if_neg nofun).symm
  | cons one lefts inductionHypothesis =>
    cases rights with
    | nil => exact (if_neg (not_lt_nil _)).symm.trans (if_neg nofun).symm
    | cons other rights =>
      obtain ⟨isOne, left⟩ := forall_mem_cons.mp left
      obtain ⟨isOther, right⟩ := forall_mem_cons.mp right
      obtain ⟨first, firstIs⟩ := Option.isSome_iff_exists.mp isOne
      obtain ⟨second, secondIs⟩ := Option.isSome_iff_exists.mp isOther
      have pieces : comparePiece one other = compareNumbers first second := by
        unfold comparePiece
        rw [firstIs, secondIs]
      have here : numbersOf (one :: lefts) = first :: numbersOf lefts := by
        unfold numbersOf
        rw [map_cons, firstIs, Option.getD_some]
      have there : numbersOf (other :: rights) = second :: numbersOf rights := by
        unfold numbersOf
        rw [map_cons, secondIs, Option.getD_some]
      rw [compareSegments, pieces, here, there, inductionHypothesis left right]
      unfold compareNumbers compareUnits
      rcases Nat.lt_trichotomy first second with less | rfl | greater
      · simp [less, Nat.ne_of_lt less, cons_lt_cons_iff]
      · simp
      · simp [Nat.lt_asymm greater, Nat.ne_of_gt greater, cons_lt_cons_iff]

/-- Two version strings of whole numbers are compared by their numbers. -/
theorem compareVersions_whole {first second : String} (one : Whole first) (other : Whole second) :
    compareVersions first second =
      compareUnits (numbersOf (segments first)) (numbersOf (segments second)) :=
  compareSegments_whole one other

example : compareVersions "1.21" "1.21.4" = -1 := by decide
example : compareVersions "1.9" "1.10" = -1 := by decide

end Geeboard.Panel
