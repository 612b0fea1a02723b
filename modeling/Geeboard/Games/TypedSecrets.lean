/-
This file is the record of a typed command: what the log keeps of it, with the values
of the server's secret settings hidden.

The values are replaced by a mark one after another, the longest first. An occurrence
that shares a character with one replaced before it is found no more, and what is left
of it stays in the record; and a value may be found over the edge of a mark set before.
Where no value is found so, the record keeps the secrets out exactly when every
character of an occurrence lies in an occurrence that is reached: one that meets none
reached before it.
-/

import Mathlib.Data.List.Sort
import Geeboard.Games.Validation
import Geeboard.Text.Picks

namespace Geeboard.Games

open Text (ApartInTurn Span origins placesOf replacedInTurn splitBy tracedFrom untraced utf16Length)

/-- What stands in the record for a secret that was typed. -/
def TYPED_SECRET_MARK : List Char := "[hidden]".toList

/-- The value a secret setting holds, when it is a text that is long enough to hide. -/
def heldValue (values : ConfigValues) (key : String) : Option (List Char) :=
  match values.get key with
  | some (.string text) => if 4 ≤ utf16Length text then some text else none
  | _ => none

/-- The values that are hidden, the longest first. -/
def heldValues (game : GameDefinition) (values : ConfigValues) : List (List Char) :=
  ((secretKeys game).filterMap (heldValue values)).insertionSort
    fun first second => utf16Length second ≤ utf16Length first

/-- A command as the log keeps it. -/
def redactTyped (game : Option GameDefinition) (values : Option ConfigValues)
    (text : List Char) : List Char :=
  match game, values with
  | some game, some values =>
    (heldValues game values).foldl
      (fun out value => TYPED_SECRET_MARK.intercalate (splitBy value out)) text
  | _, _ => text

/-- The values that are hidden, none where there is no game or there are no values. -/
def heldBy (game : Option GameDefinition) (values : Option ConfigValues) : List (List Char) :=
  match game, values with
  | some game, some values => heldValues game values
  | _, _ => []

/-- A value of a secret setting of at least four characters. -/
def IsHeld (game : Option GameDefinition) (values : Option ConfigValues)
    (value : List Char) : Prop :=
  ∃ definition ∈ game, ∃ stored ∈ values, ∃ key ∈ secretKeys definition,
    stored.get key = some (.string value) ∧ 4 ≤ utf16Length value

/-- A position of the command lies in an occurrence of such a value. -/
def InSecret (game : Option GameDefinition) (values : Option ConfigValues) (text : List Char)
    (position : Nat) : Prop :=
  ∃ value, IsHeld game values value ∧
    ∃ start, value <+: text.drop start ∧ start ≤ position ∧ position < start + value.length

/-- The record, each of its characters with the position of the command it comes from, or none
when it comes from a mark. -/
def recordTyped (game : Option GameDefinition) (values : Option ConfigValues)
    (text : List Char) : List (Char × Option Nat) :=
  replacedInTurn Prod.fst (untraced TYPED_SECRET_MARK) (heldBy game values) (tracedFrom 0 text)

/-- The record keeps the secrets out: nothing of an occurrence is left, and all the rest is, in
its order. -/
structure KeepsOut (game : Option GameDefinition) (values : Option ConfigValues)
    (text : List Char) : Prop where
  gone : ∀ position ∈ origins (recordTyped game values text),
    ¬ InSecret game values text position
  kept : ∀ position < text.length, ¬ InSecret game values text position →
    position ∈ origins (recordTyped game values text)
  inOrder : (origins (recordTyped game values text)).Pairwise (· < ·)

/-- No value is found, in the text before its turn, over the edge of a mark. -/
def FoundApart (game : Option GameDefinition) (values : Option ConfigValues)
    (text : List Char) : Prop :=
  ApartInTurn Prod.fst (fun item => item.2.isNone) (untraced TYPED_SECRET_MARK)
    (heldBy game values) (tracedFrom 0 text)

instance (game : Option GameDefinition) (values : Option ConfigValues) (text : List Char) :
    Decidable (FoundApart game values text) :=
  inferInstanceAs (Decidable (ApartInTurn _ _ _ _ _))

/-- The occurrences that are reached: those of the values in turn, each from the left, that meet
none reached before. -/
def reachedPlaces (game : Option GameDefinition) (values : Option ConfigValues)
    (text : List Char) : List Span :=
  Span.picked (placesOf id (heldBy game values) text)

/-! ### The record and where it comes from -/

/-- The record is what the log keeps. -/
theorem map_fst_recordTyped (game : Option GameDefinition) (values : Option ConfigValues)
    (text : List Char) :
    (recordTyped game values text).map Prod.fst = redactTyped game values text := by
  unfold recordTyped
  rw [Text.map_replacedInTurn, Text.map_fst_tracedFrom]
  unfold heldBy redactTyped
  split <;> rfl

theorem heldValue_eq_some_iff {values : ConfigValues} {key : String} {value : List Char} :
    heldValue values key = some value ↔
      values.get key = some (.string value) ∧ 4 ≤ utf16Length value := by
  unfold heldValue
  constructor
  · intro held
    split at held
    case h_1 text found =>
      split at held
      case isTrue long =>
        obtain rfl := Option.some.inj held
        exact ⟨found, long⟩
      case isFalse => exact absurd held (Option.some_ne_none value).symm
    case h_2 => exact absurd held (Option.some_ne_none value).symm
  · rintro ⟨found, long⟩
    rw [found]
    exact if_pos long

variable {values : Option ConfigValues} {game : Option GameDefinition}

theorem mem_heldBy_iff {value : List Char} :
    value ∈ heldBy game values ↔ IsHeld game values value := by
  unfold heldBy IsHeld
  cases game with
  | none =>
    constructor
    · exact fun member => absurd member List.not_mem_nil
    · rintro ⟨definition, none_, -⟩
      exact absurd none_ (Option.not_mem_none _)
  | some game =>
    cases values with
    | none =>
      constructor
      · exact fun member => absurd member List.not_mem_nil
      · rintro ⟨definition, -, stored, none_, -⟩
        exact absurd none_ (Option.not_mem_none _)
    | some values =>
      dsimp only
      unfold heldValues
      rw [List.mem_insertionSort, List.mem_filterMap]
      constructor
      · rintro ⟨key, secret, held⟩
        exact ⟨game, rfl, values, rfl, key, secret, heldValue_eq_some_iff.mp held⟩
      · rintro ⟨definition, same, stored, alike, key, secret, held⟩
        obtain rfl := Option.some.inj same
        obtain rfl := Option.some.inj alike
        exact ⟨key, secret, heldValue_eq_some_iff.mpr held⟩

theorem heldBy_ne_nil {value : List Char} (member : value ∈ heldBy game values) : value ≠ [] := by
  obtain ⟨-, -, -, -, -, -, -, long⟩ := mem_heldBy_iff.mp member
  rintro rfl
  exact absurd long (by decide)

/-- The places of the values cover what lies in an occurrence. -/
theorem covers_placesOf_iff {text : List Char} {position : Nat} :
    Span.covers (placesOf id (heldBy game values) text) position = true ↔
      InSecret game values text position := by
  rw [Span.covers_iff]
  unfold placesOf InSecret
  constructor
  · rintro ⟨span, member, holds⟩
    obtain ⟨value, held, place⟩ := List.mem_flatMap.mp member
    obtain ⟨start, before, rfl, begins⟩ := Text.mem_placesFrom_iff.mp place
    rw [List.map_id] at begins
    have bounds : start ≤ position ∧ position < start + value.length := by
      rw [← Nat.zero_add start]
      exact holds
    exact ⟨value, mem_heldBy_iff.mp held, start, List.isPrefixOf_iff_prefix.mp begins, bounds⟩
  · rintro ⟨value, held, start, begins, least, most⟩
    have member := mem_heldBy_iff.mpr held
    have before : start < text.length := by
      by_contra beyond
      rw [List.drop_eq_nil_of_le (Nat.not_lt.mp beyond)] at begins
      exact heldBy_ne_nil member (List.prefix_nil.mp begins)
    refine ⟨⟨0 + start, 0 + start + value.length⟩, List.mem_flatMap.mpr ⟨value, member,
      Text.mem_placesFrom_iff.mpr ⟨start, before, rfl, ?_⟩⟩, ?_⟩
    · rw [List.map_id]
      exact List.isPrefixOf_iff_prefix.mpr begins
    · rw [Nat.zero_add]
      exact ⟨least, most⟩

theorem lt_length_of_inSecret {text : List Char} {position : Nat}
    (inside : InSecret game values text position) :
    position < text.length := by
  obtain ⟨value, -, start, begins, least, most⟩ := inside
  have short := begins.length_le
  rw [List.length_drop] at short
  omega

/-- What is left of the command is what the occurrences that are reached do not hold. -/
theorem origins_recordTyped {text : List Char} (apart : FoundApart game values text) :
    origins (recordTyped game values text) =
      (List.range' 0 text.length).filter fun position =>
        !Span.covers (reachedPlaces game values text) position := by
  have someMark : TYPED_SECRET_MARK ≠ [] := by decide
  unfold recordTyped
  rw [Text.origins_replacedInTurn (fun value member => heldBy_ne_nil member) someMark apart]
  unfold reachedPlaces
  rw [Text.placesOf_map, Text.map_fst_tracedFrom]

theorem mem_origins_iff {text : List Char} (apart : FoundApart game values text) {position : Nat} :
    position ∈ origins (recordTyped game values text) ↔
      position < text.length ∧ Span.covers (reachedPlaces game values text) position = false := by
  rw [origins_recordTyped apart, List.mem_filter, List.mem_range'_1, Nat.zero_add,
    Bool.not_eq_true']
  exact and_congr_left fun _ => ⟨fun bounds => bounds.2, fun most => ⟨Nat.zero_le _, most⟩⟩

/-! ### What the record keeps out -/

/-- The record is what the log keeps; and as long as no value is found over the edge of a mark, it
keeps the secrets out exactly when every character of an occurrence lies in an occurrence that is
reached. -/
theorem keepsOut_iff_reached (game : Option GameDefinition) (values : Option ConfigValues)
    (text : List Char) (apart : FoundApart game values text) :
    (recordTyped game values text).map Prod.fst = redactTyped game values text ∧
      (KeepsOut game values text ↔
        ∀ position, InSecret game values text position →
          ∃ span ∈ reachedPlaces game values text, span.Holds position) := by
  refine ⟨map_fst_recordTyped game values text, ?_⟩
  constructor
  · intro keeps position inside
    refine Span.covers_iff.mp ?_
    by_contra left
    exact keeps.gone position ((mem_origins_iff apart).mpr
      ⟨lt_length_of_inSecret inside, eq_false_of_ne_true left⟩) inside
  · intro reached
    refine ⟨fun position member inside => ?_, fun position before outside => ?_, ?_⟩
    · have left := ((mem_origins_iff apart).mp member).2
      rw [Span.covers_iff.mpr (reached position inside)] at left
      exact Bool.false_ne_true left.symm
    · refine (mem_origins_iff apart).mpr ⟨before, eq_false_of_ne_true fun covered => outside ?_⟩
      obtain ⟨span, member, holds⟩ := Span.covers_iff.mp covered
      exact covers_placesOf_iff.mp (Span.covers_iff.mpr ⟨span, Span.mem_of_mem_picked member, holds⟩)
    · rw [origins_recordTyped apart]
      exact (List.pairwise_lt_range' 1).filter _

/-! ### A server with two passwords -/

/-- A game with a join password and a password for the owner. -/
def guardedGame : GameDefinition where
  id := "guarded"
  name := "Guarded"
  config := [
    { key := "password", label := "Password", type := .string, default := .string [],
      target := .properties "server.properties" "password".toList none false false,
      secret := true },
    { key := "owner", label := "Owner's password", type := .string, default := .string [],
      target := .properties "server.properties" "owner".toList none false false,
      secret := true }]

def guardedValues (password owner : String) : ConfigValues :=
  .ofEntries [("password", .string password.toList), ("owner", .string owner.toList)]

/-- A password that contains another one leaves no tail behind. -/
theorem keepsOut_iff_reached_longer :
    KeepsOut (some guardedGame) (some (guardedValues "hunter" "hunter22"))
      "login hunter22 hunter".toList := by
  have apart : FoundApart (some guardedGame) (some (guardedValues "hunter" "hunter22"))
      "login hunter22 hunter".toList := by decide +kernel
  have reached : ∀ position < "login hunter22 hunter".toList.length,
      Span.covers (placesOf id (heldBy (some guardedGame) (some (guardedValues "hunter" "hunter22")))
        "login hunter22 hunter".toList) position = true →
      Span.covers (reachedPlaces (some guardedGame) (some (guardedValues "hunter" "hunter22"))
        "login hunter22 hunter".toList) position = true := by decide +kernel
  exact (keepsOut_iff_reached _ _ _ apart).2.mpr fun position inside =>
    Span.covers_iff.mp (reached position (lt_length_of_inSecret inside)
      (covers_placesOf_iff.mpr inside))

/-- Of two passwords that were typed over one another, the second one's tail is kept. -/
theorem tail_of_second_password_is_kept :
    redactTyped (some guardedGame) (some (guardedValues "hunterboss" "bossfight"))
        "say hunterbossfight".toList = "say [hidden]fight".toList ∧
      ¬ ∀ game values text, KeepsOut game values text := by
  refine ⟨by decide +kernel, fun keeps => ?_⟩
  have keeps := keeps (some guardedGame) (some (guardedValues "hunterboss" "bossfight"))
    "say hunterbossfight".toList
  refine keeps.gone 14 (by decide +kernel) ⟨"bossfight".toList, ?_, 10, ?_, by decide, by decide⟩
  · exact ⟨guardedGame, rfl, _, rfl, "owner", by decide +kernel, by decide +kernel,
      by decide +kernel⟩
  · exact List.isPrefixOf_iff_prefix.mp (by decide +kernel)

end Geeboard.Games
