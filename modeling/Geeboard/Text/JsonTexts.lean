/-
This file is about the text of a value of the data format. Parsing it gives the value
back, but for what a text cannot hold: an infinite number becomes nothing, and a zero
loses its sign.
-/

import Geeboard.Text.Json

namespace Text

open List Option

/-! ### Writing -/

/-- Parts with a comma between them. -/
def listed (parts : List Units) : Units := [code ','].intercalate parts

mutual

/-- The text of a value, with the names of an object in their order. -/
def stringify : Json → Units
  | .null => codes "null".toList
  | .bool true => codes "true".toList
  | .bool false => codes "false".toList
  | .number (.infinite _) => codes "null".toList
  | .number number => codes number.text
  | .string text => quoted text
  | .array items => code '[' :: (listed (stringifyItems items) ++ [code ']'])
  | .object entries => code '{' :: (listed (stringifyEntries entries) ++ [code '}'])

def stringifyItems : List Json → List Units
  | [] => []
  | item :: items => stringify item :: stringifyItems items

def stringifyEntries : List (Units × Json) → List Units
  | [] => []
  | (name, value) :: entries =>
    (quoted name ++ code ':' :: stringify value) :: stringifyEntries entries

end

mutual

/-- What is left of a value where it is written: nothing of an infinite number, and of a zero not
its sign. -/
def Json.plain : Json → Json
  | .number (.infinite _) => .null
  | .number number => .number number.unsigned
  | .array items => .array (plainItems items)
  | .object entries => .object (plainEntries entries)
  | .null => .null
  | .bool value => .bool value
  | .string text => .string text

def plainItems : List Json → List Json
  | [] => []
  | item :: items => item.plain :: plainItems items

def plainEntries : List (Units × Json) → List (Units × Json)
  | [] => []
  | (name, value) :: entries => (name, value.plain) :: plainEntries entries

end

theorem stringifyItems_eq (items : List Json) : stringifyItems items = items.map stringify := by
  induction items with
  | nil => rfl
  | cons item items inductionHypothesis => rw [stringifyItems, inductionHypothesis, map_cons]

theorem stringifyEntries_eq (entries : List (Units × Json)) :
    stringifyEntries entries =
      entries.map fun entry => quoted entry.1 ++ code ':' :: stringify entry.2 := by
  induction entries with
  | nil => rfl
  | cons entry entries inductionHypothesis =>
    rw [stringifyEntries, inductionHypothesis, map_cons]

theorem plainItems_eq (items : List Json) : plainItems items = items.map Json.plain := by
  induction items with
  | nil => rfl
  | cons item items inductionHypothesis => rw [plainItems, inductionHypothesis, map_cons]

theorem plainEntries_eq (entries : List (Units × Json)) :
    plainEntries entries = entries.map fun entry => (entry.1, entry.2.plain) := by
  induction entries with
  | nil => rfl
  | cons entry entries inductionHypothesis =>
    rw [plainEntries, inductionHypothesis, map_cons]

/-! ### What is written is parsed -/

/-- What a character of a number is as a code unit. -/
structure IsNumberCode (char : Char) : Prop where
  back : charOf (code char) = char
  solid : isSpaceUnit (code char) = false
  marks : ∀ mark ∈ ['"', '[', '{', 'n', 't', 'f', ']'], code char ≠ code mark

theorem isNumberCode_of_isNumberChar {char : Char} (number : isNumberChar char = true) :
    IsNumberCode char := by
  have small : char.toNat < 128 := by
    unfold isNumberChar at number
    rw [Bool.or_eq_true, contains_iff_mem] at number
    rcases number with digit | mark
    · rw [Char.isDigit, Bool.and_eq_true, decide_eq_true_eq, decide_eq_true_eq] at digit
      have most : char.toNat ≤ 57 := digit.2
      omega
    · have each : ∀ mark ∈ ['-', '+', '.', 'e', 'E'], mark.toNat < 128 := by decide
      exact each char mark
  have each : ∀ value < 128, isNumberChar (Char.ofNat value) = true →
      charOf (code (Char.ofNat value)) = Char.ofNat value ∧
      isSpaceUnit (code (Char.ofNat value)) = false ∧
      ∀ mark ∈ ['"', '[', '{', 'n', 't', 'f', ']'], code (Char.ofNat value) ≠ code mark := by
    decide +kernel
  have here := each char.toNat small
  rw [Char.ofNat_toNat] at here
  obtain ⟨back, solid, marks⟩ := here number
  exact ⟨back, solid, marks⟩

theorem skipped_cons {unit : CodeUnit} (solid : isSpaceUnit unit = false) (rest : Units) :
    skipped (unit :: rest) = unit :: rest := by
  unfold skipped
  rw [dropWhile_cons_of_neg]
  rw [solid]
  exact Bool.false_ne_true

theorem afterMark_here {mark : Char} (solid : isSpaceUnit (code mark) = false) (rest : Units) :
    afterMark mark (code mark :: rest) = some rest := by
  unfold afterMark
  rw [skipped_cons solid]
  exact if_pos rfl

theorem afterMark_other {mark : Char} {unit : CodeUnit} (solid : isSpaceUnit unit = false)
    (other : unit ≠ code mark) (rest : Units) : afterMark mark (unit :: rest) = none := by
  unfold afterMark
  rw [skipped_cons solid]
  exact if_neg other

/-- What follows a value goes on with no part of a number. -/
def Ends (rest : Units) : Prop := ∀ unit ∈ rest.head?, isNumberUnit unit = false

theorem ends_cons {unit : CodeUnit} (other : isNumberUnit unit = false) (rest : Units) :
    Ends (unit :: rest) := by
  intro first head
  cases head
  exact other

/-- Where a value begins. -/
theorem exists_stringify_cons {value : Json} (well : value.WellFormed) :
    ∃ unit tail, stringify value = unit :: tail ∧ isSpaceUnit unit = false ∧
      unit ≠ code ']' := by
  cases well with
  | null => exact ⟨_, _, rfl, by decide, by decide⟩
  | bool value =>
    cases value with
    | true => exact ⟨_, _, rfl, by decide, by decide⟩
    | false => exact ⟨_, _, rfl, by decide, by decide⟩
  | string text => exact ⟨_, _, rfl, by decide, by decide⟩
  | array each => exact ⟨_, _, rfl, by decide, by decide⟩
  | object distinct each => exact ⟨_, _, rfl, by decide, by decide⟩
  | @number number double =>
    have finite : number.IsFinite → ∃ unit tail, codes number.text = unit :: tail ∧
        isSpaceUnit unit = false ∧ unit ≠ code ']' := by
      intro finite
      obtain ⟨-, some_, chars⟩ := readNumber_text double finite
      obtain ⟨char, tail, text⟩ := exists_cons_of_ne_nil some_
      have is := isNumberCode_of_isNumberChar (chars char (text ▸ mem_cons_self))
      exact ⟨code char, codes tail, by rw [text]; rfl, is.solid, is.marks ']' (by decide)⟩
    cases number with
    | infinite negative => exact ⟨_, _, rfl, by decide, by decide⟩
    | finite value => exact finite trivial
    | minusZero => exact finite trivial

/-- What it is for a value to be parsed as it is written. -/
def Reads (value : Json) : Prop :=
  ∀ fuel rest, 2 * (stringify value).length + 2 ≤ fuel → Ends rest →
    parseValue fuel (stringify value ++ rest) = some (value.plain, rest)

theorem reads_number {number : Number} (double : number.IsDouble) (finite : number.IsFinite) :
    Reads (.number number) := by
  intro fuel rest enough ends
  obtain ⟨fuel, rfl⟩ := Nat.exists_eq_succ_of_ne_zero (show fuel ≠ 0 by omega)
  obtain ⟨read, some_, chars⟩ := readNumber_text double finite
  obtain ⟨char, tail, text⟩ := exists_cons_of_ne_nil some_
  have is := isNumberCode_of_isNumberChar (chars char (text ▸ mem_cons_self))
  have written : stringify (.number number) = codes number.text := by
    cases number with
    | infinite negative => exact absurd finite id
    | finite value => rfl
    | minusZero => rfl
  have plain : Json.plain (.number number) = .number number.unsigned := by
    cases number with
    | infinite negative => exact absurd finite id
    | finite value => rfl
    | minusZero => rfl
  have all_ : ∀ unit ∈ codes number.text, isNumberUnit unit = true := by
    intro unit member
    obtain ⟨char, inside, rfl⟩ := List.mem_map.mp member
    unfold isNumberUnit
    rw [(isNumberCode_of_isNumberChar (chars char inside)).back]
    exact chars char inside
  have back : (codes number.text).map charOf = number.text := by
    unfold codes
    rw [List.map_map]
    refine (map_congr_left fun char inside => ?_).trans (List.map_id number.text)
    exact (isNumberCode_of_isNumberChar (chars char inside)).back
  have token : (codes number.text ++ rest).takeWhile isNumberUnit = codes number.text ∧
      (codes number.text ++ rest).dropWhile isNumberUnit = rest := by
    rw [takeWhile_append_of_pos all_, dropWhile_append_of_pos all_]
    cases rest with
    | nil => exact ⟨append_nil _, rfl⟩
    | cons unit rest =>
      have other := ends unit rfl
      rw [takeWhile_cons_of_neg, dropWhile_cons_of_neg, append_nil]
      · exact ⟨rfl, rfl⟩
      · rw [other]
        exact Bool.false_ne_true
      · rw [other]
        exact Bool.false_ne_true
  have parsed : parseNumber (codes number.text ++ rest) =
      some (.number number.unsigned, rest) := by
    unfold parseNumber
    rw [token.1, token.2, back, read]
    rfl
  have begins : codes number.text ++ rest = code char :: (codes tail ++ rest) := by
    rw [text]
    rfl
  rw [written, plain, ← parsed, begins, parseValue, skipped_cons is.solid]
  dsimp only
  rw [if_neg (is.marks _ (by decide)), if_neg (is.marks _ (by decide)),
    if_neg (is.marks _ (by decide)), if_neg (is.marks _ (by decide)),
    if_neg (is.marks _ (by decide)), if_neg (is.marks _ (by decide))]

theorem reads_word {word : List Char} {value meant : Json} (first : Char) (letters : List Char)
    (written : stringify value = codes word) (plain : value.plain = meant)
    (begins : word = first :: letters)
    (parsed : ∀ fuel rest, parseValue (fuel + 1) (code first :: rest) =
      parseWord word meant (code first :: rest)) :
    Reads value := by
  intro fuel rest enough ends
  obtain ⟨fuel, rfl⟩ := Nat.exists_eq_succ_of_ne_zero (show fuel ≠ 0 by omega)
  have cons : codes word ++ rest = code first :: (codes letters ++ rest) := by
    rw [begins]
    rfl
  rw [written, plain, cons, parsed, ← cons]
  unfold parseWord
  have length : word.length = (codes word).length := (length_map _).symm
  rw [if_pos (List.isPrefixOf_iff_prefix.mpr (prefix_append _ _)), length,
    drop_left]

theorem listed_cons_cons (part next : Units) (parts : List Units) :
    listed (part :: next :: parts) = part ++ code ',' :: listed (next :: parts) := by
  unfold listed
  rw [intercalate_cons_cons, append_assoc]
  rfl

theorem listed_singleton (part : Units) : listed [part] = part := intercalate_singleton

/-- The items of an array are parsed when each of them is. -/
theorem parseItems_listed {items : List Json} (some_ : items ≠ [])
    (each : ∀ item ∈ items, Reads item) (fuel : Nat) (rest : Units)
    (enough : 2 * (listed (items.map stringify)).length + 3 ≤ fuel) :
    parseItems fuel (listed (items.map stringify) ++ code ']' :: rest) =
      some (items.map Json.plain, rest) := by
  induction items generalizing fuel with
  | nil => exact absurd rfl some_
  | cons item items inductionHypothesis =>
    obtain ⟨fuel, rfl⟩ := Nat.exists_eq_succ_of_ne_zero (show fuel ≠ 0 by omega)
    obtain ⟨here, there⟩ := forall_mem_cons.mp each
    cases items with
    | nil =>
      rw [map_singleton, listed_singleton] at enough ⊢
      rw [parseItems, here fuel _ (by omega) (ends_cons (by decide) _), bind_some]
      dsimp only
      rw [afterMark_other (by decide) (by decide), afterMark_here (by decide)]
      rfl
    | cons next items =>
      rw [map_cons, map_cons, listed_cons_cons] at enough ⊢
      rw [length_append, length_cons] at enough
      rw [append_assoc, cons_append, parseItems,
        here fuel _ (by omega) (ends_cons (by decide) _), bind_some]
      dsimp only
      rw [afterMark_here (by decide)]
      dsimp only
      rw [← map_cons, inductionHypothesis (cons_ne_nil _ _) there fuel
        (by rw [map_cons]; omega)]
      rfl

/-- The members of an object are parsed when the value of each is. -/
theorem parseMembers_listed {entries : List (Units × Json)} (some_ : entries ≠ [])
    (each : ∀ entry ∈ entries, Reads entry.2) (fuel : Nat) (rest : Units)
    (enough : 2 * (listed (stringifyEntries entries)).length + 3 ≤ fuel) :
    parseMembers fuel (listed (stringifyEntries entries) ++ code '}' :: rest) =
      some (plainEntries entries, rest) := by
  induction entries generalizing fuel with
  | nil => exact absurd rfl some_
  | cons entry entries inductionHypothesis =>
    obtain ⟨fuel, rfl⟩ := Nat.exists_eq_succ_of_ne_zero (show fuel ≠ 0 by omega)
    obtain ⟨here, there⟩ := forall_mem_cons.mp each
    obtain ⟨name, value⟩ := entry
    have reads : Reads value := here
    have named : ∀ tail, parseString (quoted name ++ code ':' :: tail) =
        some (name, code ':' :: tail) := by
      intro tail
      unfold parseString quoted
      rw [cons_append, afterMark_here (by decide), bind_some, append_assoc]
      exact unquoted_escapedUnits name _
    cases entries with
    | nil =>
      rw [stringifyEntries, stringifyEntries, listed_singleton] at enough ⊢
      rw [length_append, length_cons] at enough
      rw [append_assoc, cons_append, parseMembers, named, bind_some]
      dsimp only
      rw [afterMark_here (by decide), bind_some,
        reads fuel _ (by omega) (ends_cons (by decide) _), bind_some]
      dsimp only
      rw [afterMark_other (by decide) (by decide), afterMark_here (by decide)]
      rfl
    | cons next entries =>
      rw [stringifyEntries] at enough ⊢
      have several : ∃ part parts, stringifyEntries (next :: entries) = part :: parts :=
        ⟨_, _, rfl⟩
      obtain ⟨part, parts, same⟩ := several
      rw [same, listed_cons_cons] at enough ⊢
      rw [length_append, length_append, length_cons, length_cons] at enough
      rw [append_assoc, append_assoc, cons_append, cons_append, parseMembers,
        named, bind_some]
      dsimp only
      rw [afterMark_here (by decide), bind_some,
        reads fuel _ (by omega) (ends_cons (by decide) _), bind_some]
      dsimp only
      rw [afterMark_here (by decide)]
      dsimp only
      rw [← same, inductionHypothesis (cons_ne_nil _ _) there fuel (by rw [same]; omega)]
      rfl

/-- Entries with each name once are set as they stand. -/
theorem entries_foldl_set {entries : List (Units × Json)} {record : Record Units Json}
    (distinct : (record.entries ++ entries).map Prod.fst |>.Nodup) :
    (entries.foldl (fun made entry => made.set entry.1 entry.2) record).entries =
      record.entries ++ entries := by
  induction entries generalizing record with
  | nil => exact (append_nil _).symm
  | cons entry entries inductionHypothesis =>
    have missing : record.get entry.1 = none := by
      cases has : record.get entry.1 with
      | none => rfl
      | some value =>
        rw [map_append, nodup_append] at distinct
        refine absurd rfl (distinct.2.2 entry.1 ?_ entry.1 mem_cons_self)
        exact List.mem_map.mpr ⟨_, Record.mem_of_get has, rfl⟩
    have set := Record.entries_set_of_get_none entry.2 missing
    have regrouped : (record.set entry.1 entry.2).entries ++ entries =
        record.entries ++ entry :: entries := by
      rw [set, append_assoc]
      rfl
    rw [foldl_cons, inductionHypothesis (regrouped ▸ distinct), regrouped]

theorem names_plainEntries (entries : List (Units × Json)) :
    (plainEntries entries).map Prod.fst = entries.map Prod.fst := by
  rw [plainEntries_eq, List.map_map]
  rfl

theorem entries_ofEntries {entries : List (Units × Json)}
    (distinct : (entries.map Prod.fst).Nodup) : (Record.ofEntries entries).entries = entries :=
  entries_foldl_set distinct

theorem reads_array {items : List Json} (well : ∀ item ∈ items, item.WellFormed)
    (each : ∀ item ∈ items, Reads item) : Reads (.array items) := by
  intro fuel rest enough ends
  obtain ⟨fuel, rfl⟩ := Nat.exists_eq_succ_of_ne_zero (show fuel ≠ 0 by omega)
  rw [stringify, length_cons, length_append] at enough
  rw [stringify, Json.plain, cons_append, append_assoc, singleton_append, parseValue,
    skipped_cons (by decide)]
  dsimp only
  rw [if_neg (by decide), if_pos rfl]
  rw [stringifyItems_eq] at enough ⊢
  rw [plainItems_eq]
  cases items with
  | nil =>
    have closes : afterMark ']' (listed ([].map stringify) ++ code ']' :: rest) = some rest :=
      afterMark_here (by decide) rest
    rw [closes]
    rfl
  | cons item items =>
    obtain ⟨unit, tail, begins, solid, other⟩ :=
      exists_stringify_cons (well item mem_cons_self)
    have first : ∃ more, listed ((item :: items).map stringify) ++ code ']' :: rest =
        unit :: more := by
      cases items with
      | nil =>
        rw [map_singleton, listed_singleton, begins]
        exact ⟨_, rfl⟩
      | cons next items =>
        rw [map_cons, map_cons, listed_cons_cons, begins]
        exact ⟨_, rfl⟩
    obtain ⟨more, same⟩ := first
    have read := parseItems_listed (cons_ne_nil item items) each fuel rest (by omega)
    rw [same] at read ⊢
    rw [afterMark_other solid other]
    dsimp only
    rw [read]
    rfl

theorem reads_object {entries : List (Units × Json)} (distinct : (entries.map Prod.fst).Nodup)
    (each : ∀ entry ∈ entries, Reads entry.2) : Reads (.object entries) := by
  intro fuel rest enough ends
  obtain ⟨fuel, rfl⟩ := Nat.exists_eq_succ_of_ne_zero (show fuel ≠ 0 by omega)
  rw [stringify, length_cons, length_append] at enough
  rw [stringify, Json.plain, cons_append, append_assoc, singleton_append, parseValue,
    skipped_cons (by decide)]
  dsimp only
  rw [if_neg (by decide), if_neg (by decide), if_pos rfl]
  cases entries with
  | nil =>
    have closes : afterMark '}' (listed (stringifyEntries []) ++ code '}' :: rest) = some rest :=
      afterMark_here (by decide) rest
    rw [closes]
    rfl
  | cons entry entries =>
    have first : ∃ more, listed (stringifyEntries (entry :: entries)) ++ code '}' :: rest =
        code '"' :: more := by
      rw [stringifyEntries]
      cases stringifyEntries entries with
      | nil =>
        rw [listed_singleton]
        exact ⟨_, rfl⟩
      | cons next parts =>
        rw [listed_cons_cons]
        exact ⟨_, rfl⟩
    obtain ⟨more, same⟩ := first
    have read := parseMembers_listed (cons_ne_nil entry entries) each fuel rest (by omega)
    rw [same] at read ⊢
    rw [afterMark_other (by decide) (by decide)]
    dsimp only
    rw [read, map_some]
    dsimp only
    rw [entries_ofEntries (by rwa [names_plainEntries])]

/-- An infinite number is written as nothing. -/
theorem reads_null {value : Json} (written : stringify value = codes "null".toList)
    (plain : value.plain = .null) : Reads value := by
  refine reads_word 'n' "ull".toList written plain rfl fun fuel rest => ?_
  rw [parseValue, skipped_cons (by decide)]
  dsimp only
  rw [if_neg (by decide), if_neg (by decide), if_neg (by decide), if_pos rfl]

/-- A value is parsed as it is written. -/
theorem reads_of_wellFormed {value : Json} (well : value.WellFormed) : Reads value := by
  induction value using Json.induct with
  | null => exact reads_null rfl rfl
  | bool value =>
    cases value with
    | true =>
      refine reads_word 't' "rue".toList rfl (rfl : _ = JsonOf.bool true) rfl fun fuel rest => ?_
      rw [parseValue, skipped_cons (by decide)]
      dsimp only
      rw [if_neg (by decide), if_neg (by decide), if_neg (by decide), if_neg (by decide),
        if_pos rfl]
    | false =>
      refine reads_word 'f' "alse".toList rfl (rfl : _ = JsonOf.bool false) rfl fun fuel rest => ?_
      rw [parseValue, skipped_cons (by decide)]
      dsimp only
      rw [if_neg (by decide), if_neg (by decide), if_neg (by decide), if_neg (by decide),
        if_neg (by decide), if_pos rfl]
  | number number =>
    cases well with
    | number double =>
      cases number with
      | finite value => exact reads_number double trivial
      | minusZero => exact reads_number double trivial
      | infinite negative => exact reads_null rfl rfl
  | string text =>
    intro fuel rest enough ends
    obtain ⟨fuel, rfl⟩ := Nat.exists_eq_succ_of_ne_zero (show fuel ≠ 0 by omega)
    rw [stringify, quoted, cons_append, append_assoc, singleton_append, parseValue,
      skipped_cons (by decide)]
    dsimp only
    rw [if_pos rfl, unquoted_escapedUnits]
    rfl
  | array items inductionHypothesis =>
    cases well with
    | array each =>
      exact reads_array each fun item member => inductionHypothesis item member (each item member)
  | object entries inductionHypothesis =>
    cases well with
    | object distinct each =>
      exact reads_object distinct fun entry member =>
        inductionHypothesis entry member (each entry member)

/-- Parsing the text of a value gives what is left of it. -/
theorem parse_stringify {value : Json} (well : value.WellFormed) :
    parse (stringify value) = some value.plain := by
  have read := reads_of_wellFormed well (2 * (stringify value).length + 2) [] (le_refl _)
    fun unit head => by cases head
  rw [append_nil] at read
  unfold parse
  rw [read, bind_some]
  exact if_pos rfl

end Text
