/-
This file is about the data format of the language: its strings, its values, and how a
text is parsed to one.

A string is a list of code units of sixteen bits, as the language has it, and so is the
text of a value. A surrogate that has no partner is escaped where it is written, and a
name that is written twice in an object has the value that comes last.
-/

import Geeboard.Text.NumberTexts
import Geeboard.Text.Records

namespace Text

open List Option

/-! ### Code units -/

/-- A code unit of sixteen bits. -/
abbrev CodeUnit := Fin 65536

/-- A string of the language. -/
abbrev Units := List CodeUnit

/-- The code unit of a character of ASCII. -/
def code (char : Char) : CodeUnit := Fin.ofNat 65536 char.toNat

def codes (text : List Char) : Units := text.map code

/-- The character of a code unit of ASCII. -/
def charOf (unit : CodeUnit) : Char := Char.ofNat unit.val

def isLead (unit : CodeUnit) : Bool := 0xd800 ≤ unit.val && unit.val ≤ 0xdbff

def isTrail (unit : CodeUnit) : Bool := 0xdc00 ≤ unit.val && unit.val ≤ 0xdfff

/-! ### Strings written -/

/-- A hexadecimal digit, in lower case. -/
def hexCode (digit : Nat) : CodeUnit := code (Nat.digitChar digit)

/-- A code unit written by its number. -/
def escapedByNumber (unit : CodeUnit) : Units :=
  [code '\\', code 'u', hexCode (unit.val / 4096), hexCode (unit.val / 256 % 16),
    hexCode (unit.val / 16 % 16), hexCode (unit.val % 16)]

/-- A code unit that is no part of a pair, as it is written in a string. -/
def escaped (unit : CodeUnit) : Units :=
  if unit = 8 then [code '\\', code 'b']
  else if unit = 9 then [code '\\', code 't']
  else if unit = 10 then [code '\\', code 'n']
  else if unit = 12 then [code '\\', code 'f']
  else if unit = 13 then [code '\\', code 'r']
  else if unit = code '"' then [code '\\', code '"']
  else if unit = code '\\' then [code '\\', code '\\']
  else if unit.val < 32 || isLead unit || isTrail unit then escapedByNumber unit
  else [unit]

/-- The code units of a string as they are written. -/
def escapedUnits : Units → Units
  | first :: second :: rest =>
    if isLead first && isTrail second then first :: second :: escapedUnits rest
    else escaped first ++ escapedUnits (second :: rest)
  | [only_] => escaped only_
  | [] => []

/-- A string as it is written. -/
def quoted (text : Units) : Units := code '"' :: (escapedUnits text ++ [code '"'])

/-! ### Strings read -/

/-- What a letter behind a backslash stands for. -/
def escapeOf (mark : CodeUnit) : Option CodeUnit :=
  if mark = code '"' then some (code '"')
  else if mark = code '\\' then some (code '\\')
  else if mark = code '/' then some (code '/')
  else if mark = code 'b' then some 8
  else if mark = code 'f' then some 12
  else if mark = code 'n' then some 10
  else if mark = code 'r' then some 13
  else if mark = code 't' then some 9
  else none

/-- The value of a hexadecimal digit in either case. -/
def hexOf (unit : CodeUnit) : Option Nat :=
  if digitValue (charOf unit) < 16 then some (digitValue (charOf unit)) else none

/-- The code unit of four hexadecimal digits. -/
def fourHex (first second third fourth : CodeUnit) : Option CodeUnit := do
  let a ← hexOf first
  let b ← hexOf second
  let c ← hexOf third
  let d ← hexOf fourth
  return Fin.ofNat 65536 (4096 * a + 256 * b + 16 * c + d)

/-- A code unit in front of a string that is read. -/
def consUnit (unit : CodeUnit) (read : Units × Units) : Units × Units := (unit :: read.1, read.2)

/-- The string that a text goes on with up to its end, and what follows. -/
def unquoted : Units → Option (Units × Units)
  | [] => none
  | unit :: rest =>
    if unit = code '"' then some ([], rest)
    else if unit = code '\\' then
      match rest with
      | mark :: more =>
        if mark = code 'u' then
          match more with
          | first :: second :: third :: fourth :: tail =>
            (fourHex first second third fourth).bind fun unit => (unquoted tail).map (consUnit unit)
          | _ => none
        else (escapeOf mark).bind fun unit => (unquoted more).map (consUnit unit)
      | [] => none
    else if unit.val < 32 then none
    else (unquoted rest).map (consUnit unit)

/-! ### Strings are read as they are written -/

theorem hexOf_hexCode {digit : Nat} (small : digit < 16) : hexOf (hexCode digit) = some digit := by
  have each : ∀ digit < 16, hexOf (hexCode digit) = some digit := by decide
  exact each digit small

theorem fourHex_written (unit : CodeUnit) :
    fourHex (hexCode (unit.val / 4096)) (hexCode (unit.val / 256 % 16))
      (hexCode (unit.val / 16 % 16)) (hexCode (unit.val % 16)) = some unit := by
  have small := unit.isLt
  unfold fourHex
  rw [hexOf_hexCode (by omega), hexOf_hexCode (by omega), hexOf_hexCode (by omega),
    hexOf_hexCode (by omega)]
  refine congrArg some (Fin.ext ?_)
  show (4096 * (unit.val / 4096) + 256 * (unit.val / 256 % 16) + 16 * (unit.val / 16 % 16) +
    unit.val % 16) % 65536 = unit.val
  omega

/-- A unit that needs no escape is read as it is. -/
theorem unquoted_plain {unit : CodeUnit} (quote : unit ≠ code '"') (slash : unit ≠ code '\\')
    (large : ¬unit.val < 32) (tail : Units) :
    unquoted (unit :: tail) = (unquoted tail).map (consUnit unit) := by
  rw [unquoted.eq_def]
  dsimp only
  rw [if_neg quote, if_neg slash, if_neg large]

theorem unquoted_escape {mark unit : CodeUnit} (other : mark ≠ code 'u')
    (stands : escapeOf mark = some unit) (tail : Units) :
    unquoted (code '\\' :: mark :: tail) = (unquoted tail).map (consUnit unit) := by
  rw [unquoted.eq_def]
  dsimp only
  rw [if_neg (by decide), if_pos rfl, if_neg other, stands, bind_some]

theorem unquoted_escaped (unit : CodeUnit) (tail : Units) :
    unquoted (escaped unit ++ tail) = (unquoted tail).map (consUnit unit) := by
  unfold escaped
  split
  · next same =>
    rw [same]
    exact unquoted_escape (by decide) (by decide) tail
  split
  · next same =>
    rw [same]
    exact unquoted_escape (by decide) (by decide) tail
  split
  · next same =>
    rw [same]
    exact unquoted_escape (by decide) (by decide) tail
  split
  · next same =>
    rw [same]
    exact unquoted_escape (by decide) (by decide) tail
  split
  · next same =>
    rw [same]
    exact unquoted_escape (by decide) (by decide) tail
  split
  · next same =>
    rw [same]
    exact unquoted_escape (by decide) (by decide) tail
  split
  · next same =>
    rw [same]
    exact unquoted_escape (by decide) (by decide) tail
  split
  · unfold escapedByNumber
    rw [cons_append, cons_append, cons_append, cons_append, cons_append,
      cons_append, nil_append, unquoted.eq_def]
    dsimp only
    rw [if_neg (by decide), if_pos rfl, if_pos rfl, fourHex_written, bind_some]
  · next quote slash plain =>
    rw [Bool.or_eq_true, Bool.or_eq_true, not_or, not_or, decide_eq_true_eq] at plain
    exact unquoted_plain quote slash plain.1.1 tail

/-- A surrogate needs no escape beside its partner. -/
theorem unquoted_surrogate {unit : CodeUnit} (surrogate : 0xd800 ≤ unit.val) (tail : Units) :
    unquoted (unit :: tail) = (unquoted tail).map (consUnit unit) := by
  refine unquoted_plain ?_ ?_ (by omega) tail
  · rintro rfl
    exact absurd surrogate (by decide)
  · rintro rfl
    exact absurd surrogate (by decide)

theorem unquoted_escapedUnits (text tail : Units) :
    unquoted (escapedUnits text ++ code '"' :: tail) = some (text, tail) := by
  have ends : unquoted (code '"' :: tail) = some ([], tail) := by
    rw [unquoted.eq_def]
    exact if_pos rfl
  induction text using escapedUnits.induct with
  | case1 first second rest pair inductionHypothesis =>
    have both := Bool.and_eq_true_iff.mp pair
    unfold isLead isTrail at both
    simp only [Bool.and_eq_true, decide_eq_true_eq] at both
    rw [escapedUnits, if_pos pair, cons_append, cons_append,
      unquoted_surrogate both.1.1, unquoted_surrogate (by omega), inductionHypothesis]
    rfl
  | case2 first second rest single inductionHypothesis =>
    rw [escapedUnits, if_neg single, append_assoc, unquoted_escaped, inductionHypothesis]
    rfl
  | case3 only_ =>
    rw [escapedUnits, unquoted_escaped, ends]
    rfl
  | case4 => exact ends

/-! ### Values -/

/-- A value of the data format, with its numbers and its texts. The names of an object stand in
the order they were set. -/
inductive JsonOf (Numeral Text : Type)
  | null
  | bool (value : Bool)
  | number (number : Numeral)
  | string (text : Text)
  | array (items : List (JsonOf Numeral Text))
  | object (entries : List (Text × JsonOf Numeral Text))

/-- A value as it is parsed: numbers of double precision, and texts of code units. -/
abbrev Json : Type := JsonOf Number Units

/-- A value as its fields are read. -/
abbrev PlainJson : Type := JsonOf Rat String

/-- A member of an object, when it has it. -/
def memberOf (entries : List (String × PlainJson)) (key : String) : Option PlainJson :=
  (entries.find? fun entry => entry.1 == key).map Prod.snd

/-- What holds of a value when it holds of all that have no parts, of an array when it holds of
its items, and of an object when it holds of the values in it, holds of every value. -/
theorem Json.induct {holds : Json → Prop} (null : holds .null) (bool : ∀ value, holds (.bool value))
    (number : ∀ number, holds (.number number)) (string : ∀ text, holds (.string text))
    (array : ∀ items, (∀ item ∈ items, holds item) → holds (.array items))
    (object : ∀ entries, (∀ entry ∈ entries, holds entry.2) → holds (.object entries))
    (value : Json) : holds value := by
  refine JsonOf.rec (motive_1 := holds) (motive_2 := fun items => ∀ item ∈ items, holds item)
    (motive_3 := fun entries => ∀ entry ∈ entries, holds entry.2)
    (motive_4 := fun entry => holds entry.2) null bool number string array object ?_ ?_ ?_ ?_ ?_
    value
  · exact fun _ member => absurd member not_mem_nil
  · exact fun item items first rest => forall_mem_cons.mpr ⟨first, rest⟩
  · exact fun _ member => absurd member not_mem_nil
  · exact fun entry entries first rest => forall_mem_cons.mpr ⟨first, rest⟩
  · exact fun name value holds => holds

/-! ### Parsing -/

def isSpaceUnit (unit : CodeUnit) : Bool :=
  unit = code ' ' || unit = 9 || unit = 10 || unit = 13

/-- A text without the blanks it begins with. -/
def skipped (text : Units) : Units := text.dropWhile isSpaceUnit

def isNumberUnit (unit : CodeUnit) : Bool := isNumberChar (charOf unit)

/-- The number that a text begins with, and what follows. -/
def parseNumber (text : Units) : Option (Json × Units) :=
  (readNumber ((text.takeWhile isNumberUnit).map charOf)).map fun number =>
    (.number number, text.dropWhile isNumberUnit)

/-- A value that a text begins with by a word, and what follows. -/
def parseWord (word : List Char) (value : Json) (text : Units) : Option (Json × Units) :=
  if (codes word).isPrefixOf text then some (value, text.drop word.length) else none

/-- What follows a mark, behind blanks. -/
def afterMark (mark : Char) (text : Units) : Option Units :=
  match skipped text with
  | unit :: rest => if unit = code mark then some rest else none
  | [] => none

/-- A string that a text begins with, behind blanks, and what follows. -/
def parseString (text : Units) : Option (Units × Units) := (afterMark '"' text).bind unquoted

mutual

/-- The value that a text begins with, and what follows, looking so deep. -/
def parseValue : Nat → Units → Option (Json × Units)
  | 0, _ => none
  | fuel + 1, text =>
    match skipped text with
    | [] => none
    | unit :: rest =>
      if unit = code '"' then (unquoted rest).map fun read => (.string read.1, read.2)
      else if unit = code '[' then
        match afterMark ']' rest with
        | some behind => some (.array [], behind)
        | none => (parseItems fuel rest).map fun read => (.array read.1, read.2)
      else if unit = code '{' then
        match afterMark '}' rest with
        | some behind => some (.object [], behind)
        | none =>
          (parseMembers fuel rest).map fun read =>
            (.object (Record.ofEntries read.1).entries, read.2)
      else if unit = code 'n' then parseWord "null".toList .null (unit :: rest)
      else if unit = code 't' then parseWord "true".toList (.bool true) (unit :: rest)
      else if unit = code 'f' then parseWord "false".toList (.bool false) (unit :: rest)
      else parseNumber (unit :: rest)

/-- The items of an array, one at least, up to its end. -/
def parseItems : Nat → Units → Option (List Json × Units)
  | 0, _ => none
  | fuel + 1, text =>
    (parseValue fuel text).bind fun read =>
      match afterMark ',' read.2 with
      | some more => (parseItems fuel more).map fun rest => (read.1 :: rest.1, rest.2)
      | none => (afterMark ']' read.2).map fun behind => ([read.1], behind)

/-- The members of an object, one at least, up to its end. -/
def parseMembers : Nat → Units → Option (List (Units × Json) × Units)
  | 0, _ => none
  | fuel + 1, text =>
    (parseString text).bind fun name =>
      (afterMark ':' name.2).bind fun colon =>
        (parseValue fuel colon).bind fun read =>
          match afterMark ',' read.2 with
          | some more =>
            (parseMembers fuel more).map fun rest => ((name.1, read.1) :: rest.1, rest.2)
          | none => (afterMark '}' read.2).map fun behind => ([(name.1, read.1)], behind)

end

/-- The value that a text is. Every two steps into the text leave a code unit behind. -/
def parse (text : Units) : Option Json :=
  (parseValue (2 * text.length + 2) text).bind fun read =>
    if skipped read.2 = [] then some read.1 else none

/-- A value with numbers that there are, and with each name once in an object. -/
inductive Json.WellFormed : Json → Prop
  | null : WellFormed .null
  | bool (value : Bool) : WellFormed (.bool value)
  | number {number : Number} (double : number.IsDouble) : WellFormed (.number number)
  | string (text : Units) : WellFormed (.string text)
  | array {items : List Json} (each : ∀ item ∈ items, WellFormed item) : WellFormed (.array items)
  | object {entries : List (Units × Json)} (distinct : (entries.map Prod.fst).Nodup)
      (each : ∀ entry ∈ entries, WellFormed entry.2) : WellFormed (.object entries)

/-! ### What is parsed is well formed -/

theorem wellFormed_parseWord {word : List Char} {value made : Json} {text rest : Units}
    (well : value.WellFormed) (parsed : parseWord word value text = some (made, rest)) :
    made.WellFormed := by
  unfold parseWord at parsed
  split at parsed
  · cases parsed
    exact well
  · cases parsed

theorem wellFormed_parts (fuel : Nat) :
    (∀ text read, parseValue fuel text = some read → read.1.WellFormed) ∧
    (∀ text read, parseItems fuel text = some read → ∀ item ∈ read.1, item.WellFormed) ∧
    (∀ text read, parseMembers fuel text = some read → ∀ entry ∈ read.1, entry.2.WellFormed) := by
  induction fuel with
  | zero =>
    refine ⟨?_, ?_, ?_⟩
    · intro text read parsed
      cases parsed
    · intro text read parsed
      cases parsed
    · intro text read parsed
      cases parsed
  | succ fuel inductionHypothesis =>
    obtain ⟨values, items, members⟩ := inductionHypothesis
    refine ⟨?_, ?_, ?_⟩
    · intro text read parsed
      unfold parseValue at parsed
      split at parsed
      · cases parsed
      split at parsed
      · obtain ⟨string, -, rfl⟩ := map_eq_some_iff.mp parsed
        exact .string _
      split at parsed
      · split at parsed
        · cases parsed
          exact .array fun _ member => absurd member not_mem_nil
        · obtain ⟨inside, some_, rfl⟩ := map_eq_some_iff.mp parsed
          exact .array (items _ _ some_)
      split at parsed
      · split at parsed
        · cases parsed
          exact .object nodup_nil fun _ member => absurd member not_mem_nil
        · obtain ⟨inside, some_, rfl⟩ := map_eq_some_iff.mp parsed
          refine .object (Record.ofEntries inside.1).distinct fun entry member => ?_
          exact members _ _ some_ entry (Record.mem_ofEntries member)
      split at parsed
      · exact wellFormed_parseWord .null parsed
      split at parsed
      · exact wellFormed_parseWord (.bool true) parsed
      split at parsed
      · exact wellFormed_parseWord (.bool false) parsed
      · obtain ⟨number, some_, rfl⟩ := map_eq_some_iff.mp parsed
        exact .number (isDouble_readNumber some_)
    · intro text read parsed
      unfold parseItems at parsed
      obtain ⟨first, some_, more⟩ := bind_eq_some_iff.mp parsed
      split at more
      · obtain ⟨rest, others, rfl⟩ := map_eq_some_iff.mp more
        exact forall_mem_cons.mpr ⟨values _ _ some_, items _ _ others⟩
      · obtain ⟨behind, -, rfl⟩ := map_eq_some_iff.mp more
        intro item member
        rw [mem_singleton.mp member]
        exact values _ _ some_
    · intro text read parsed
      unfold parseMembers at parsed
      obtain ⟨name, -, named⟩ := bind_eq_some_iff.mp parsed
      obtain ⟨colon, -, valued⟩ := bind_eq_some_iff.mp named
      obtain ⟨first, some_, more⟩ := bind_eq_some_iff.mp valued
      split at more
      · obtain ⟨rest, others, rfl⟩ := map_eq_some_iff.mp more
        exact forall_mem_cons.mpr ⟨values _ _ some_, members _ _ others⟩
      · obtain ⟨behind, -, rfl⟩ := map_eq_some_iff.mp more
        intro entry member
        rw [mem_singleton.mp member]
        exact values _ _ some_

/-- What a text is parsed to is well formed. -/
theorem wellFormed_parse {text : Units} {value : Json} (parsed : parse text = some value) :
    value.WellFormed := by
  unfold parse at parsed
  obtain ⟨read, some_, ends⟩ := bind_eq_some_iff.mp parsed
  split at ends
  · cases ends
    exact (wellFormed_parts _).1 _ _ some_
  · cases ends

end Text
