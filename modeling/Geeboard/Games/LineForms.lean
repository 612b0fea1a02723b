/-
This file is about the forms of lines: a line that was put together from the
parts of an assignment is read as that assignment, whatever its new value is, or
as no assignment at all.
-/

import Geeboard.Games.Formats

namespace Geeboard.Games

open Text List Option

/-! ### Characters -/

theorem not_isSpace_of_ascii {char : Char} (low : 0x20 < char.toNat) (high : char.toNat < 0x80) :
    isSpace char = false := by
  unfold isSpace
  simp only [Bool.or_eq_false_iff, Bool.and_eq_false_iff, decide_eq_false_iff_not,
    beq_eq_false_iff_ne]
  omega

theorem toNat_of_isAlphanum {char : Char} (word : char.isAlphanum = true) :
    0x20 < char.toNat ∧ char.toNat < 0x80 := by
  unfold Char.isAlphanum Char.isAlpha Char.isUpper Char.isLower Char.isDigit at word
  simp only [Bool.or_eq_true, Bool.and_eq_true, decide_eq_true_eq, UInt32.le_iff_toNat_le,
    ge_iff_le] at word
  have codes : 'a'.val.toNat = 97 ∧ 'z'.val.toNat = 122 ∧ 'A'.val.toNat = 65 ∧
      'Z'.val.toNat = 90 ∧ '0'.val.toNat = 48 ∧ '9'.val.toNat = 57 := by decide
  unfold Char.toNat
  grind

theorem not_isSpace_of_isDottedChar {char : Char} (dotted : isDottedChar char = true) :
    isSpace char = false := by
  unfold isDottedChar isWordChar at dotted
  simp only [Bool.or_eq_true, beq_iff_eq] at dotted
  obtain (word | rfl) | rfl := dotted
  · exact not_isSpace_of_ascii (toNat_of_isAlphanum word).1 (toNat_of_isAlphanum word).2
  · decide
  · decide

theorem not_isSpace_of_isWordChar {char : Char} (word : isWordChar char = true) :
    isSpace char = false :=
  not_isSpace_of_isDottedChar (by rw [isDottedChar, word, Bool.true_or])

theorem not_isSpace_of_isPropertyChar {char : Char} (key : isPropertyChar char = true) :
    isSpace char = false := by
  unfold isPropertyChar at key
  simp only [Bool.or_eq_true, beq_iff_eq] at key
  obtain ((word | rfl) | rfl) | rfl := key
  · exact not_isSpace_of_ascii (toNat_of_isAlphanum word).1 (toNat_of_isAlphanum word).2
  · decide
  · decide
  · decide

/-! ### Signs -/

/-- Blanks, the sign of an assignment, and blanks. -/
structure Sign (separator : List Char) : Prop where
  parts : ∃ before after, separator = before ++ '=' :: after ∧
    (∀ char ∈ before, isSpace char = true) ∧ ∀ char ∈ after, isSpace char = true

theorem spaces_takeWhile (text : List Char) : ∀ char ∈ text.takeWhile isSpace, isSpace char = true :=
  fun _ member => mem_takeWhile_imp member

theorem dropWhile_idempotent (text : List Char) :
    (text.dropWhile isSpace).dropWhile isSpace = text.dropWhile isSpace :=
  List.dropWhile_idempotent isSpace text

variable {rest indent before : List Char}

/-- What is read of a text that begins with a sign. -/
theorem separatorOf_sign (spaces : ∀ char ∈ before, isSpace char = true) :
    separatorOf (before ++ '=' :: rest) =
      some (before ++ '=' :: rest.takeWhile isSpace, rest.dropWhile isSpace) := by
  unfold separatorOf
  rw [dropWhile_append_of_pos spaces, takeWhile_append_of_pos spaces,
    dropWhile_cons_of_neg (by decide), takeWhile_cons_of_neg (by decide),
    append_nil]
  rfl

theorem separatorOf_some {text separator value : List Char}
    (read : separatorOf text = some (separator, value)) :
    Sign separator ∧ text = separator ++ value ∧ value.dropWhile isSpace = value := by
  unfold separatorOf at read
  split at read
  · rename_i rest same
    obtain ⟨rfl, rfl⟩ := Prod.mk.inj (some.inj read)
    refine ⟨⟨_, _, rfl, spaces_takeWhile _, spaces_takeWhile _⟩, ?_, dropWhile_idempotent _⟩
    rw [append_assoc, cons_append, takeWhile_append_dropWhile, ← same,
      takeWhile_append_dropWhile]
  · cases read

/-! ### Assignments -/

/-- The parts a line is put together from when it is an assignment. -/
structure Pair.Makes (pair : Pair) (isFirst isKey : Char → Bool) (line : Line) : Prop where
  line : line = pair.indent ++ (pair.key ++ (pair.separator ++ pair.value))
  indent : ∀ char ∈ pair.indent, isSpace char = true
  first : pair.key.head?.any isFirst = true
  key : ∀ char ∈ pair.key, isKey char = true
  sign : Sign pair.separator
  value : pair.value.all isPlain = true

/-- Keys end where a blank or a sign begins. -/
structure KeyClass (isKey : Char → Bool) : Prop where
  space : ∀ char, isKey char = true → isSpace char = false
  sign : isKey '=' = false

theorem keyClass_property : KeyClass isPropertyChar :=
  ⟨fun _ => not_isSpace_of_isPropertyChar, by decide⟩

theorem keyClass_word : KeyClass isWordChar := ⟨fun _ => not_isSpace_of_isWordChar, by decide⟩

theorem keyClass_dotted : KeyClass isDottedChar := ⟨fun _ => not_isSpace_of_isDottedChar, by decide⟩

variable {isFirst isKey : Char → Bool}

variable {line : Line} {pair : Pair}

theorem pairOf_makes (read : pairOf isFirst isKey line = some pair) :
    pair.Makes isFirst isKey line := by
  unfold pairOf at read
  dsimp only at read
  split at read
  · rename_i separator value signed
    split at read
    · rename_i fits
      obtain ⟨first, plain⟩ := Bool.and_eq_true_iff.mp fits
      obtain rfl := some.inj read
      obtain ⟨sign, rest, -⟩ := separatorOf_some signed
      refine ⟨?_, spaces_takeWhile _, first, fun _ member => mem_takeWhile_imp member, sign,
        plain⟩
      dsimp only
      rw [← rest, takeWhile_append_dropWhile, takeWhile_append_dropWhile]
    · cases read
  · cases read

/-- The beginning of a text that begins with a key and a sign. -/
theorem takeWhile_key (class_ : KeyClass isKey) {key : List Char}
    (keys : ∀ char ∈ key, isKey char = true) (spaces : ∀ char ∈ before, isSpace char = true) :
    (key ++ (before ++ '=' :: rest)).takeWhile isKey = key ∧
      (key ++ (before ++ '=' :: rest)).dropWhile isKey = before ++ '=' :: rest := by
  have stops : (before ++ '=' :: rest).head?.all fun char => !isKey char := by
    cases before with
    | nil => simp [class_.sign]
    | cons char before =>
      have space := spaces char mem_cons_self
      have other : isKey char = false := by
        by_contra isKey_
        rw [Bool.not_eq_false] at isKey_
        rw [class_.space char isKey_] at space
        cases space
      simp [other]
  rw [takeWhile_append_of_pos keys, dropWhile_append_of_pos keys]
  obtain ⟨char, text, same⟩ := exists_cons_of_ne_nil
    (append_ne_nil_of_right_ne_nil before (cons_ne_nil '=' rest))
  rw [same] at stops ⊢
  have other : ¬ isKey char = true := by simpa using stops
  rw [takeWhile_cons_of_neg other, dropWhile_cons_of_neg other, append_nil]
  exact ⟨rfl, rfl⟩

/-- The blanks a line begins with end where its key begins. -/
theorem dropWhile_indent (class_ : KeyClass isKey) {key : List Char}
    (spaces : ∀ char ∈ indent, isSpace char = true) (keys : ∀ char ∈ key, isKey char = true)
    (some_ : key ≠ []) :
    (indent ++ (key ++ rest)).dropWhile isSpace = key ++ rest ∧
      (indent ++ (key ++ rest)).takeWhile isSpace = indent := by
  obtain ⟨char, more, rfl⟩ := exists_cons_of_ne_nil some_
  have other : ¬ isSpace char = true := by
    rw [class_.space char (keys char mem_cons_self)]
    exact Bool.false_ne_true
  rw [dropWhile_append_of_pos spaces, takeWhile_append_of_pos spaces, cons_append,
    dropWhile_cons_of_neg other, takeWhile_cons_of_neg other, append_nil]
  exact ⟨rfl, rfl⟩

/-- What a line is read as that was put together from the parts of an assignment. -/
theorem pairOf_built (class_ : KeyClass isKey) {indent key before rest : List Char}
    (spaces : ∀ char ∈ indent, isSpace char = true) (keys : ∀ char ∈ key, isKey char = true)
    (first : key.head?.any isFirst = true) (blanks : ∀ char ∈ before, isSpace char = true) :
    pairOf isFirst isKey (indent ++ (key ++ (before ++ '=' :: rest))) =
      if (rest.dropWhile isSpace).all isPlain then
        some ⟨indent, key, before ++ '=' :: rest.takeWhile isSpace, rest.dropWhile isSpace⟩
      else none := by
  have some_ : key ≠ [] := by
    rintro rfl
    cases first
  unfold pairOf
  dsimp only
  rw [(dropWhile_indent class_ spaces keys some_).1, (dropWhile_indent class_ spaces keys some_).2,
    (takeWhile_key class_ keys blanks).1, (takeWhile_key class_ keys blanks).2,
    separatorOf_sign blanks]
  dsimp only
  rw [first, Bool.true_and]

theorem chomp_built (indent key before rest : List Char) :
    chomp (indent ++ (key ++ (before ++ '=' :: rest))) =
      indent ++ (key ++ (before ++ '=' :: chomp rest)) := by
  have all := @chomp_append_cons (indent ++ (key ++ before)) '=' (by decide) rest
  rwa [append_assoc, append_assoc, append_assoc, append_assoc] at all

/-- The line with another value, without the carriage return it may end in. -/
theorem chomp_rewritten (makes : pair.Makes isFirst isKey line) (value : List Char) :
    ∃ before after, (∀ char ∈ before, isSpace char = true) ∧
      (∀ char ∈ after, isSpace char = true) ∧ pair.separator = before ++ '=' :: after ∧
      chomp (pair.indent ++ pair.key ++ pair.separator ++ value) =
        pair.indent ++ (pair.key ++ (before ++ '=' :: chomp (after ++ value))) := by
  obtain ⟨before, after, same, blanks, more⟩ := makes.sign.parts
  refine ⟨before, after, blanks, more, same, ?_⟩
  rw [same, append_assoc, append_assoc, append_assoc, cons_append, chomp_built]

/-! ### Commands -/

/-- The parts a line is put together from when it is a command. -/
structure Pair.Commands (pair : Pair) (line : Line) : Prop where
  line : line = pair.indent ++ (pair.key ++ (pair.separator ++ pair.value))
  indent : ∀ char ∈ pair.indent, isSpace char = true
  some_ : pair.key ≠ []
  key : ∀ char ∈ pair.key, isWordChar char = true
  gap : pair.separator ≠ []
  separator : ∀ char ∈ pair.separator, isSpace char = true

theorem cvarLine_commands (read : cvarLine line = some pair) :
    pair.Commands line := by
  unfold cvarLine at read
  dsimp only at read
  split at read
  · rename_i fits
    obtain rfl := some.inj read
    simp only [Bool.and_eq_true, Bool.not_eq_true', isEmpty_eq_false_iff] at fits
    refine ⟨?_, spaces_takeWhile _, fits.1.1, fun _ member => mem_takeWhile_imp member, ?_,
      spaces_takeWhile _⟩
    · dsimp only
      rw [takeWhile_append_dropWhile, takeWhile_append_dropWhile,
        takeWhile_append_dropWhile]
    · have begins := fits.1.2
      dsimp only
      cases more : ((line.dropWhile isSpace).dropWhile isWordChar) with
      | nil =>
        rw [more] at begins
        cases begins
      | cons char rest =>
        rw [more] at begins
        rw [takeWhile_cons_of_pos (by simpa using begins)]
        exact cons_ne_nil _ _
  · cases read

theorem cvarLine_built {indent name gap rest : List Char} {char : Char}
    (spaces : ∀ char ∈ indent, isSpace char = true) (some_ : name ≠ [])
    (words : ∀ char ∈ name, isWordChar char = true) (wide : gap ≠ [])
    (blanks : ∀ char ∈ gap, isSpace char = true) (solid : isSpace char = false) :
    cvarLine (indent ++ (name ++ (gap ++ char :: rest))) =
      if (char :: rest).all isPlain then some ⟨indent, name, gap, char :: rest⟩ else none := by
  obtain ⟨first, more, rfl⟩ := exists_cons_of_ne_nil wide
  have ends : ¬ isWordChar first = true := by
    intro word
    have space := blanks first mem_cons_self
    rw [not_isSpace_of_isWordChar word] at space
    cases space
  have stops : ¬ isSpace char = true := by
    rw [solid]
    exact Bool.false_ne_true
  unfold cvarLine
  dsimp only
  rw [(dropWhile_indent keyClass_word spaces words some_).1,
    (dropWhile_indent keyClass_word spaces words some_).2, takeWhile_append_of_pos words,
    dropWhile_append_of_pos words, cons_append, takeWhile_cons_of_neg ends,
    dropWhile_cons_of_neg ends, append_nil, ← cons_append,
    dropWhile_append_of_pos blanks, takeWhile_append_of_pos blanks,
    dropWhile_cons_of_neg stops, takeWhile_cons_of_neg stops, append_nil]
  have begins : ((first :: more) ++ char :: rest).head?.any isSpace = true :=
    blanks first mem_cons_self
  rw [begins, isEmpty_eq_false_iff.mpr some_]
  rfl

/-! ### Sections -/

/-- A name that stands before a sign in an INI file. -/
structure IniName (key : List Char) : Prop where
  first : (key.head?.any fun char => !(isSpace char || char == ';' || char == '#')) = true
  sign : '=' ∉ key
  ended : trimEnd key = key
  line : '\n' ∉ key

theorem IniName.cons {key : List Char} (fits : IniName key) :
    ∃ char rest, key = char :: rest ∧ isSpace char = false ∧ char ≠ ';' ∧ char ≠ '#' := by
  have first := fits.first
  cases key with
  | nil => cases first
  | cons char rest =>
    simp only [head?_cons, any_some, Bool.not_eq_true', Bool.or_eq_false_iff,
      beq_eq_false_iff_ne] at first
    exact ⟨char, rest, rfl, first.1.1, first.1.2, first.2⟩

theorem dropWhile_indent_iniName {indent key rest : List Char}
    (spaces : ∀ char ∈ indent, isSpace char = true) (fits : IniName key) :
    (indent ++ (key ++ rest)).dropWhile isSpace = key ++ rest ∧
      (indent ++ (key ++ rest)).takeWhile isSpace = indent := by
  obtain ⟨char, more, rfl, solid, -⟩ := fits.cons
  have stops : ¬ isSpace char = true := by
    rw [solid]
    exact Bool.false_ne_true
  rw [dropWhile_append_of_pos spaces, takeWhile_append_of_pos spaces, cons_append,
    dropWhile_cons_of_neg stops, takeWhile_cons_of_neg stops, append_nil]
  exact ⟨rfl, rfl⟩

theorem iniPair_name {indent key before rest : List Char}
    (spaces : ∀ char ∈ indent, isSpace char = true) (fits : IniName key)
    (blanks : ∀ char ∈ before, isSpace char = true) :
    iniPair (indent ++ (key ++ (before ++ '=' :: rest))) =
      if (rest.dropWhile isSpace).all isPlain then
        some ⟨indent, key, before ++ '=' :: rest.takeWhile isSpace, rest.dropWhile isSpace⟩
      else none := by
  have unsigned : ∀ char ∈ key ++ before, (char != '=') = true := by
    intro char member
    rw [bne_iff_ne]
    rintro rfl
    rcases mem_append.mp member with inKey | inBefore
    · exact fits.sign inKey
    · exact absurd (blanks _ inBefore) (by decide)
  unfold iniPair
  dsimp only
  rw [(dropWhile_indent_iniName spaces fits).1, (dropWhile_indent_iniName spaces fits).2,
    ← append_assoc, takeWhile_append_of_pos unsigned,
    dropWhile_append_of_pos unsigned, takeWhile_cons_of_neg (by decide),
    dropWhile_cons_of_neg (by decide), append_nil, trimEnd_append_blanks key blanks,
    fits.ended]
  dsimp only
  rw [drop_left]
  obtain ⟨char, more, rfl, -, semicolon, hash⟩ := fits.cons
  have first : ((char :: more).head?.any fun char => !(char == ';' || char == '#')) = true := by
    simp [semicolon, hash]
  rw [first, Bool.true_and]

/-- A key that an INI file can have, and that no line beginning a section is taken for. -/
structure IniKey (key : List Char) : Prop where
  first : (key.head?.any fun char =>
    !(isSpace char || char == ';' || char == '#' || char == '[')) = true
  sign : '=' ∉ key
  ended : trimEnd key = key
  line : '\n' ∉ key

theorem IniKey.cons {key : List Char} (fits : IniKey key) :
    ∃ char rest, key = char :: rest ∧ isSpace char = false ∧ char ≠ ';' ∧ char ≠ '#' ∧
      char ≠ '[' := by
  have first := fits.first
  cases key with
  | nil => cases first
  | cons char rest =>
    simp only [head?_cons, any_some, Bool.not_eq_true', Bool.or_eq_false_iff,
      beq_eq_false_iff_ne] at first
    exact ⟨char, rest, rfl, first.1.1.1, first.1.1.2, first.1.2, first.2⟩

theorem IniKey.name {key : List Char} (fits : IniKey key) : IniName key := by
  refine ⟨?_, fits.sign, fits.ended, fits.line⟩
  obtain ⟨char, rest, rfl, solid, semicolon, hash, -⟩ := fits.cons
  simp [solid, semicolon, hash]

/-- A line that begins with a key begins no section. -/
theorem iniHeader_key {indent key rest : List Char}
    (spaces : ∀ char ∈ indent, isSpace char = true) (fits : IniKey key) :
    iniHeader (indent ++ (key ++ rest)) = none := by
  unfold iniHeader
  rw [(dropWhile_indent_iniName spaces fits.name).1]
  obtain ⟨char, more, rfl, -, -, -, bracket⟩ := fits.cons
  rw [cons_append]
  split
  · rename_i same
    exact absurd (cons.inj same).1 bracket
  · rfl

/-- The parts a line is put together from when it is an assignment of a section. -/
theorem iniPair_makes (read : iniPair line = some pair) :
    line = pair.indent ++ (pair.key ++ (pair.separator ++ pair.value)) ∧
      (∀ char ∈ pair.indent, isSpace char = true) ∧ Sign pair.separator := by
  unfold iniPair at read
  dsimp only at read
  split at read
  · rename_i sign rest same
    split at read
    · obtain rfl := some.inj read
      obtain ⟨blanks, parts, spaces⟩ := exists_trimEnd_append
        ((line.dropWhile isSpace).takeWhile fun char => char != '=')
      have left : ((line.dropWhile isSpace).takeWhile fun char => char != '=').drop
          (trimEnd ((line.dropWhile isSpace).takeWhile fun char => char != '=')).length =
          blanks := (congrArg (List.drop _) parts).trans drop_left
      have signed : sign = '=' := by
        have stopped := @List.head?_dropWhile_not _ (fun char => char != '=')
          (line.dropWhile isSpace)
        rw [same] at stopped
        simpa using stopped
      dsimp only
      rw [left]
      refine ⟨?_, spaces_takeWhile _, ⟨blanks, _, rfl, spaces, spaces_takeWhile _⟩⟩
      conv_lhs => rw [← takeWhile_append_dropWhile (p := isSpace) (l := line),
        ← takeWhile_append_dropWhile (p := fun char => char != '=')
          (l := line.dropWhile isSpace), same, parts, signed]
      simp [takeWhile_append_dropWhile]
    · cases read
  · cases read

/-- The line that begins a section of this name. -/
theorem iniHeader_made {section_ : List Char} (some_ : section_ ≠ []) (fits : ']' ∉ section_) :
    iniHeader ('[' :: section_ ++ [']']) = some section_ := by
  have all : ∀ char ∈ section_, (char != ']') = true := by
    intro char member
    rw [bne_iff_ne]
    rintro rfl
    exact fits member
  unfold iniHeader
  rw [cons_append, dropWhile_cons_of_neg (by decide)]
  split
  · rename_i rest same
    obtain ⟨-, rfl⟩ := cons.inj same
    rw [takeWhile_append_of_pos all, dropWhile_append_of_pos all,
      takeWhile_cons_of_neg (by decide), dropWhile_cons_of_neg (by decide),
      append_nil]
    dsimp only
    rw [isEmpty_eq_false_iff.mpr some_]
    rfl
  · rename_i other
    exact absurd rfl (other _)

/-! ### Lua -/

/-- A name that a Lua table or one of its keys can have. -/
structure LuaName (name : List Char) : Prop where
  first : name.head?.any isNameStart = true
  word : ∀ char ∈ name, isWordChar char = true

theorem isDottedChar_of_isWordChar {char : Char} (word : isWordChar char = true) :
    isDottedChar char = true := by
  unfold isDottedChar
  rw [word, Bool.true_or]

/-- A line that begins with a name, taken apart. -/
structure NamedLine (indent name rest : List Char) : Prop where
  spaces : ∀ char ∈ indent, isSpace char = true
  name : LuaName name
  rest : rest.head?.all (fun char => !isWordChar char) = true

namespace NamedLine

variable {indent name rest : List Char}

theorem text (named : NamedLine indent name rest) :
    (indent ++ (name ++ rest)).dropWhile isSpace = name ++ rest := by
  have some_ : name ≠ [] := by
    rintro rfl
    exact absurd named.name.first Bool.false_ne_true
  exact (dropWhile_indent keyClass_word named.spaces named.name.word some_).1

theorem indent_ (named : NamedLine indent name rest) :
    (indent ++ (name ++ rest)).takeWhile isSpace = indent := by
  have some_ : name ≠ [] := by
    rintro rfl
    exact absurd named.name.first Bool.false_ne_true
  exact (dropWhile_indent keyClass_word named.spaces named.name.word some_).2

theorem parts (named : NamedLine indent name rest) :
    (name ++ rest).takeWhile isWordChar = name ∧ (name ++ rest).dropWhile isWordChar = rest := by
  rw [takeWhile_append_of_pos named.name.word, dropWhile_append_of_pos named.name.word]
  cases rest with
  | nil => exact ⟨append_nil _, rfl⟩
  | cons char rest =>
    have stops : ¬ isWordChar char = true := by simpa using named.rest
    rw [takeWhile_cons_of_neg stops, dropWhile_cons_of_neg stops, append_nil]
    exact ⟨rfl, rfl⟩

/-- A line that begins with a name closes nothing. -/
theorem luaClose_eq (named : NamedLine indent name rest) :
    luaClose (indent ++ (name ++ rest)) = false := by
  unfold luaClose
  rw [named.text]
  have word := named.name.word
  have first := named.name.first
  cases name with
  | nil => cases first
  | cons char name =>
    split
    · rename_i same
      have bracket := (cons.inj same).1
      have isWord := word char mem_cons_self
      rw [bracket] at isWord
      exact absurd isWord (by decide)
    · rfl

/-- A line whose name has no sign after it opens nothing, starts nothing and assigns no name. -/
theorem unsigned (named : NamedLine indent name rest) (none_ : separatorOf rest = none) :
    luaBase (indent ++ (name ++ rest)) = none ∧ luaOpen (indent ++ (name ++ rest)) = none ∧
      luaPair (indent ++ (name ++ rest)) = none := by
  refine ⟨?_, ?_, ?_⟩
  · unfold luaBase
    dsimp only
    rw [named.text, named.parts.2, none_]
  · unfold luaOpen
    dsimp only
    rw [named.text, named.parts.2, none_]
  · unfold luaPair
    dsimp only
    rw [named.text, named.parts.2, none_]

end NamedLine

/-- What a line is read as that assigns a dotted name. -/
theorem luaDotted_built {indent name before rest : List Char}
    (spaces : ∀ char ∈ indent, isSpace char = true)
    (dotted : ∀ char ∈ name, isDottedChar char = true)
    (first : name.head?.any isNameStart = true) (blanks : ∀ char ∈ before, isSpace char = true) :
    luaDotted (indent ++ (name ++ (before ++ '=' :: rest))) =
      if (trimEnd (rest.dropWhile isSpace)).all isPlain then
        some ⟨indent, name, before ++ '=' :: rest.takeWhile isSpace,
          trimEnd (rest.dropWhile isSpace)⟩
      else none := by
  have some_ : name ≠ [] := by
    rintro rfl
    cases first
  unfold luaDotted
  dsimp only
  rw [(dropWhile_indent keyClass_dotted spaces dotted some_).1,
    (dropWhile_indent keyClass_dotted spaces dotted some_).2,
    (takeWhile_key keyClass_dotted dotted blanks).1, (takeWhile_key keyClass_dotted dotted blanks).2,
    separatorOf_sign blanks]
  dsimp only
  rw [first, Bool.true_and]

/-- The name that a line of this form assigns is this one. -/
theorem luaDotted_named {name : List Char} (spaces : ∀ char ∈ indent, isSpace char = true)
    (dotted : ∀ char ∈ name, isDottedChar char = true) (first : name.head?.any isNameStart = true)
    (blanks : ∀ char ∈ before, isSpace char = true)
    (read : luaDotted (indent ++ (name ++ (before ++ '=' :: rest))) = some pair) :
    pair.key = name := by
  rw [luaDotted_built spaces dotted first blanks] at read
  split at read
  · rw [← some.inj read]
  · cases read

/-- The parts a line is put together from when it assigns a dotted name. -/
structure Dotted (pair : Pair) (line : Line) : Prop where
  line : ∃ more, line = pair.indent ++ (pair.key ++ (pair.separator ++ more))
  indent : ∀ char ∈ pair.indent, isSpace char = true
  first : pair.key.head?.any isNameStart = true
  key : ∀ char ∈ pair.key, isDottedChar char = true
  sign : Sign pair.separator

theorem luaDotted_makes (read : luaDotted line = some pair) :
    Dotted pair line := by
  unfold luaDotted at read
  dsimp only at read
  split at read
  · rename_i separator value signed
    split at read
    · rename_i fits
      obtain ⟨first, -⟩ := Bool.and_eq_true_iff.mp fits
      obtain rfl := some.inj read
      obtain ⟨sign, rest, -⟩ := separatorOf_some signed
      refine ⟨⟨value, ?_⟩, spaces_takeWhile _, first, fun _ member => mem_takeWhile_imp member,
        sign⟩
      dsimp only
      rw [← rest, takeWhile_append_dropWhile, takeWhile_append_dropWhile]
    · cases read
  · cases read

/-- The parts a line is put together from when it assigns a name. -/
theorem luaPair_makes {comma : List Char} (read : luaPair line = some (pair, comma)) :
    (∃ more, line = pair.indent ++ (pair.key ++ (pair.separator ++ more))) ∧
      (∀ char ∈ pair.indent, isSpace char = true) ∧ LuaName pair.key ∧ Sign pair.separator ∧
      (comma = [] ∨ comma = [',']) := by
  unfold luaPair at read
  dsimp only at read
  split at read
  · rename_i separator value signed
    obtain ⟨fits, same⟩ := ite_none_right_eq_some.mp read
    obtain ⟨first, -⟩ := Bool.and_eq_true_iff.mp fits
    obtain ⟨rfl, rfl⟩ := Prod.mk.inj (some.inj same)
    obtain ⟨sign, rest, -⟩ := separatorOf_some signed
    refine ⟨⟨value, ?_⟩, spaces_takeWhile _, ⟨first, fun _ member =>
      mem_takeWhile_imp member⟩, sign, ?_⟩
    · dsimp only
      rw [← rest, takeWhile_append_dropWhile, takeWhile_append_dropWhile]
    · split
      · exact Or.inr rfl
      · exact Or.inl rfl
  · cases read

/-- What the line of a dotted name is not. -/
structure DottedForm (line : Line) : Prop where
  base : luaBase line = none
  opens : luaOpen line = none
  closes : luaClose line = false
  pair : luaPair line = none

/-- A line that begins with a name and a dot. -/
theorem dottedForm {indent table rest : List Char}
    (spaces : ∀ char ∈ indent, isSpace char = true) (name : LuaName table) :
    DottedForm (indent ++ (table ++ '.' :: rest)) := by
  have named : NamedLine indent table ('.' :: rest) :=
    ⟨spaces, name, (by decide : (!isWordChar '.') = true)⟩
  have none_ : separatorOf ('.' :: rest) = none := by
    unfold separatorOf
    rw [dropWhile_cons_of_neg (by decide)]
    rfl
  obtain ⟨base, opens, pair⟩ := named.unsigned none_
  exact ⟨base, opens, named.luaClose_eq, pair⟩

/-- A literal that opens no table and names no module. -/
structure LuaLiteral (value : List Char) : Prop where
  first : ∃ char rest, value = char :: rest ∧ isSpace char = false ∧ char ≠ '{'
  module_ : ¬ "require".toList <+: value

/-- What the line of a name and a literal is. -/
structure SignedForm (name : List Char) (line : Line) : Prop where
  base : luaBase line = none
  opens : luaOpen line = none
  closes : luaClose line = false
  pair : ∀ found, luaPair line = some found → found.1.key = name
  dotted : ∀ pair, luaDotted line = some pair → pair.key = name

theorem namedLine_signed {indent name before rest : List Char}
    (spaces : ∀ char ∈ indent, isSpace char = true) (fits : LuaName name)
    (blanks : ∀ char ∈ before, isSpace char = true) :
    NamedLine indent name (before ++ '=' :: rest) := by
  refine ⟨spaces, fits, ?_⟩
  cases before with
  | nil => exact (by decide : (!isWordChar '=') = true)
  | cons char before =>
    have space := blanks char mem_cons_self
    refine (by decide : ∀ word : Bool, word = false → (!word) = true) _ ?_
    by_contra word
    rw [not_isSpace_of_isWordChar (by simpa using word)] at space
    cases space

/-- A line that begins with a name and a sign, whatever comes after. -/
theorem signed_names {indent name before rest : List Char}
    (spaces : ∀ char ∈ indent, isSpace char = true) (fits : LuaName name)
    (blanks : ∀ char ∈ before, isSpace char = true) :
    luaClose (indent ++ (name ++ (before ++ '=' :: rest))) = false ∧
      (∀ found, luaPair (indent ++ (name ++ (before ++ '=' :: rest))) = some found →
        found.1.key = name) ∧
      ∀ pair, luaDotted (indent ++ (name ++ (before ++ '=' :: rest))) = some pair →
        pair.key = name := by
  have named := @namedLine_signed indent name before rest spaces fits blanks
  refine ⟨named.luaClose_eq, fun found read => ?_, fun pair read => ?_⟩
  · unfold luaPair at read
    dsimp only at read
    rw [named.text, named.parts.1, named.parts.2, separatorOf_sign blanks] at read
    obtain ⟨-, same⟩ := ite_none_right_eq_some.mp read
    rw [← some.inj same]
  · exact luaDotted_named spaces (fun char member => isDottedChar_of_isWordChar
      (fits.word char member)) fits.first blanks read

theorem signed_opens {name : List Char} (spaces : ∀ char ∈ indent, isSpace char = true)
    (fits : LuaName name) (blanks : ∀ char ∈ before, isSpace char = true)
    (closed_ : (rest.dropWhile isSpace).head? ≠ some '{') :
    luaOpen (indent ++ (name ++ (before ++ '=' :: rest))) = none := by
  have named := @namedLine_signed indent name before rest spaces fits blanks
  unfold luaOpen
  dsimp only
  rw [named.text, named.parts.2, separatorOf_sign blanks]
  split
  · rename_i same
    rw [(Prod.mk.inj (some.inj same)).2] at closed_
    exact absurd rfl closed_
  · rfl

theorem signedForm {name : List Char} (spaces : ∀ char ∈ indent, isSpace char = true)
    (fits : LuaName name) (blanks : ∀ char ∈ before, isSpace char = true)
    (closed_ : (rest.dropWhile isSpace).head? ≠ some '{')
    (local_ : ¬ "require".toList <+: rest.dropWhile isSpace) :
    SignedForm name (indent ++ (name ++ (before ++ '=' :: rest))) := by
  have named := @namedLine_signed indent name before rest spaces fits blanks
  obtain ⟨closes, pair, dotted⟩ := @signed_names indent name before rest spaces fits blanks
  refine ⟨?_, signed_opens spaces fits blanks closed_, closes, pair, dotted⟩
  unfold luaBase
  dsimp only
  rw [named.text, named.parts.2, separatorOf_sign blanks]
  dsimp only
  unfold after
  rw [if_neg (by rwa [List.isPrefixOf_iff_prefix])]

/-- The parts a line is put together from when it starts a table from a module. -/
theorem luaBase_makes {name module_ : List Char}
    (read : luaBase line = some (indent, name, module_)) :
    ∃ before rest, line = indent ++ (name ++ (before ++ '=' :: rest)) ∧
      (∀ char ∈ indent, isSpace char = true) ∧ LuaName name ∧
      (∀ char ∈ before, isSpace char = true) ∧ (rest.dropWhile isSpace).head? ≠ some '{' := by
  unfold luaBase at read
  dsimp only at read
  split at read
  · rename_i separator value signed
    obtain ⟨⟨before, blanks, same, spaces, more⟩, whole, solid⟩ := separatorOf_some signed
    split at read
    · rename_i rest began
      split at read
      · split at read
        · obtain ⟨fits, made⟩ := ite_none_right_eq_some.mp read
          obtain ⟨first, -⟩ := Bool.and_eq_true_iff.mp fits
          obtain ⟨rfl, made_⟩ := Prod.mk.inj (some.inj made)
          obtain ⟨rfl, -⟩ := Prod.mk.inj made_
          refine ⟨before, blanks ++ value, ?_, spaces_takeWhile _, ⟨first, fun _ member =>
            mem_takeWhile_imp member⟩, spaces, ?_⟩
          · rw [← cons_append, ← append_assoc before, ← same, ← whole,
              takeWhile_append_dropWhile, takeWhile_append_dropWhile]
          · rw [dropWhile_append_of_pos more, solid]
            unfold after at began
            obtain ⟨begins, -⟩ := ite_none_right_eq_some.mp began
            obtain ⟨tail, rfl⟩ := isPrefixOf_iff_prefix.mp begins
            exact (by decide : some 'r' ≠ some '{')
        · cases read
      · cases read
    · cases read
  · cases read

theorem luaBase_named {name : List Char} (spaces : ∀ char ∈ indent, isSpace char = true)
    (fits : LuaName name) (blanks : ∀ char ∈ before, isSpace char = true)
    {found : List Char × List Char × List Char}
    (read : luaBase (indent ++ (name ++ (before ++ '=' :: rest))) = some found) :
    found.2.1 = name := by
  have named := @namedLine_signed indent name before rest spaces fits blanks
  unfold luaBase at read
  dsimp only at read
  rw [named.text, named.parts.1, named.parts.2, separatorOf_sign blanks] at read
  dsimp only at read
  split at read
  · split at read
    · split at read
      · obtain ⟨-, made⟩ := ite_none_right_eq_some.mp read
        rw [← some.inj made]
      · cases read
    · cases read
  · cases read

/-- A line with nothing on it, or with a comment, says nothing. -/
theorem idleForm
    (idle : line.dropWhile isSpace = [] ∨ ∃ rest, line.dropWhile isSpace = '-' :: rest) :
    DottedForm line ∧ luaDotted line = none := by
  have unnamed : ∀ isKey : Char → Bool, isKey '-' = false →
      separatorOf ((line.dropWhile isSpace).dropWhile isKey) = none := by
    intro isKey stops
    unfold separatorOf
    rcases idle with same | ⟨rest, same⟩
    · rw [same]
      rfl
    · rw [same, dropWhile_cons_of_neg (by simp [stops]),
        dropWhile_cons_of_neg (by decide)]
      rfl
  have word := unnamed isWordChar (by decide)
  refine ⟨⟨?_, ?_, ?_, ?_⟩, ?_⟩
  · unfold luaBase
    dsimp only
    rw [word]
  · unfold luaOpen
    dsimp only
    rw [word]
  · unfold luaClose
    rcases idle with same | ⟨rest, same⟩
    · rw [same]
    · rw [same]
      rfl
  · unfold luaPair
    dsimp only
    rw [word]
  · unfold luaDotted
    dsimp only
    rw [unnamed isDottedChar (by decide)]

end Geeboard.Games
