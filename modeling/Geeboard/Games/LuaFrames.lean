/-
This file is about what a merge into a Lua file leaves alone.

A line that assigns a key by its full name is read the same wherever it stands,
and opens and closes nothing; a line that assigns a name inside a table is read by
the tables that are open there. What the merge writes is of these two kinds again,
for keys the patch names, as long as a literal opens no table and starts none. The
one line it writes that another key may be read of is the one a table starts from:
inside an open table it is also an assignment of that table.
-/

import Geeboard.Games.Rereads

namespace Geeboard.Games

open Text List Option

/-! ### What lines are read as -/

/-- A line that leaves the open tables and gives the key nothing. -/
def LuaQuiet (table key : List Char) (path : List (List Char)) (line : Line) : Prop :=
  luaNext path line = path ∧ luaGives table key path line = none

section Quiet

variable {table key name : List Char} {path : List (List Char)} {line : Line}

theorem not_dotted {more : List Char} (fits : LuaName name) : name ≠ table ++ '.' :: more := by
  rintro rfl
  have word := fits.word '.' (mem_append_right _ mem_cons_self)
  exact absurd word (by decide)

theorem luaNext_of_none (opens : luaOpen line = none) (closes : luaClose line = false) :
    luaNext path line = path := by
  unfold luaNext
  rw [opens, closes]
  rfl

theorem luaGives_of_dotted (pair : luaPair line = none)
    (other : ∀ pair, luaDotted line = some pair → pair.key ≠ table ++ '.' :: key) :
    luaGives table key path line = none := by
  have none_ : (luaDotted line).filter (fun pair => pair.key == table ++ '.' :: key) = none := by
    cases read : luaDotted line with
    | none => rfl
    | some pair => exact filter_other (other pair read)
  unfold luaGives
  rw [none_]
  unfold nestedKey
  dsimp only
  split
  · rfl
  · rw [pair]
    rfl

/-- A line that assigns a dotted name says nothing of another one. -/
theorem DottedForm.quiet (form : DottedForm line)
    (other : ∀ pair, luaDotted line = some pair → pair.key ≠ table ++ '.' :: key) :
    LuaQuiet table key path line :=
  ⟨luaNext_of_none form.opens form.closes, luaGives_of_dotted form.pair other⟩

/-- A line that assigns a name says something of that name in the open tables alone. -/
theorem luaGives_of_signed (fits : LuaName name)
    (pair : ∀ found, luaPair line = some found → found.1.key = name)
    (dotted : ∀ pair, luaDotted line = some pair → pair.key = name)
    (other : path.head? = some table → dottedName (path.tail ++ [name]) ≠ key) :
    luaGives table key path line = none := by
  have none_ : (luaDotted line).filter (fun pair => pair.key == table ++ '.' :: key) = none := by
    cases read : luaDotted line with
    | none => rfl
    | some pair => exact filter_other (dotted pair read ▸ not_dotted fits)
  unfold luaGives
  rw [none_]
  unfold nestedKey
  dsimp only
  split
  · rfl
  · rename_i inside
    simp only [Bool.or_eq_true, not_or, bne_iff_ne, ne_eq, not_not] at inside
    cases read : luaPair line with
    | none => rfl
    | some found =>
      have named := other inside.2
      rw [map_some, filter_some_neg]
      · rfl
      · dsimp only
        rw [pair found read, beq_eq_false_iff_ne]
        exact named

theorem idle_quiet
    (idle : line.dropWhile isSpace = [] ∨ ∃ rest, line.dropWhile isSpace = '-' :: rest) :
    LuaQuiet table key path line := by
  obtain ⟨form, dotted⟩ := idleForm idle
  refine form.quiet fun pair read => ?_
  rw [dotted] at read
  cases read

end Quiet

theorem trimEnd_ne_nil {char : Char} {text : List Char} (solid : isSpace char = false) :
    trimEnd (char :: text) ≠ [] := by
  unfold trimEnd
  rw [ne_eq, rdropWhile_eq_nil_iff]
  intro all
  rw [all char mem_cons_self] at solid
  cases solid

theorem dropWhile_of_trimmed_nil {text : List Char} (nothing : trimmed text = []) :
    text.dropWhile isSpace = [] := by
  cases rest : text.dropWhile isSpace with
  | nil => rfl
  | cons char more =>
    have solid := @List.head?_dropWhile_not _ isSpace text
    rw [rest] at solid
    unfold trimmed at nothing
    rw [rest] at nothing
    exact absurd nothing (trimEnd_ne_nil (by simpa using solid))

theorem idle_of_luaIdle {line : Line} (idle : luaIdle line = true) :
    line.dropWhile isSpace = [] ∨ ∃ rest, line.dropWhile isSpace = '-' :: rest := by
  unfold luaIdle at idle
  dsimp only at idle
  rcases Bool.or_eq_true_iff.mp idle with nothing | comment
  · exact Or.inl (dropWhile_of_trimmed_nil (List.isEmpty_iff.mp nothing))
  · obtain ⟨rest, same⟩ := isPrefixOf_iff_prefix.mp comment
    obtain ⟨blanks, whole, -⟩ := exists_trimEnd_append (line.dropWhile isSpace)
    refine Or.inr ⟨'-' :: rest ++ blanks, ?_⟩
    unfold trimmed at same
    rw [whole, ← same]
    rfl

theorem blank_chomp {line : Line} (blank : isBlankLine line = true) :
    (chomp line).dropWhile isSpace = [] := by
  have all := dropWhile_of_trimmed_nil (List.isEmpty_iff.mp blank)
  rw [dropWhile_eq_nil_iff] at all ⊢
  exact fun char member => all char (mem_of_mem_chomp member)

/-! ### What a patch may name -/

/-- What a merge into a Lua file may be asked to write: tables and keys that such a file can have,
and literals that are one. A table's start is any module. -/
structure LuaEntries (entries : List Entry) : Prop where
  tables : ∀ entry ∈ entries, LuaName entry.section_
  keys : ∀ entry ∈ entries, ∀ char ∈ entry.key, isDottedChar char = true
  values : ∀ entry ∈ entries, '\n' ∉ entry.value
  literals : ∀ entry ∈ entries, entry.key ≠ [] → LuaLiteral entry.value

/-- The entry names this key of this table; with no key, the module the table starts from. -/
def LuaNames (table key : List Char) (entry : Entry) : Prop :=
  if key = [] then entry.key = [] ∧ entry.section_ = table
  else entry.key ≠ [] ∧ entry.section_ ++ '.' :: entry.key = table ++ '.' :: key

/-- No line of the file starts this table from inside an open one. -/
def Outside (table existing : List Char) : Prop :=
  ∀ front line back, splitLines existing = front ++ line :: back →
    (luaModule table line).isSome = true → front.foldl luaNext [] = []

/-- What the merge of a Lua file has to write for one of its tables. -/
structure LuaWanted (table : List Char) (wanted : Record (List Char) (List Char)) : Prop where
  table : LuaName table
  keys : ∀ pair ∈ wanted.entries, ∀ char ∈ pair.1, isDottedChar char = true
  some_ : ∀ pair ∈ wanted.entries, pair.1 ≠ []
  clean : ∀ pair ∈ wanted.entries, '\n' ∉ pair.2
  literals : ∀ pair ∈ wanted.entries, LuaLiteral pair.2

section Lines

variable {table own key : List Char} {wanted : Record (List Char) (List Char)}
  {path : List (List Char)}

theorem LuaName.clean {name : List Char} (fits : LuaName name) : '\n' ∉ name :=
  clean_of_keys keyClass_word fits.word

theorem LuaName.cons {name : List Char} (fits : LuaName name) :
    ∃ char rest, name = char :: rest := by
  have first := fits.first
  cases name with
  | nil => cases first
  | cons char rest => exact ⟨char, rest, rfl⟩

theorem no_blanks : ∀ char ∈ ([] : List Char), isSpace char = true := fun _ member =>
  absurd member not_mem_nil

/-- A full name that is made of the table and a key. -/
theorem dotted_full (fits : LuaName own) {key : List Char}
    (keys : ∀ char ∈ key, isDottedChar char = true) :
    (∀ char ∈ own ++ '.' :: key, isDottedChar char = true) ∧
      (own ++ '.' :: key).head?.any isNameStart = true := by
  refine ⟨fun char member => ?_, ?_⟩
  · rcases mem_append.mp member with inTable | inKey
    · exact isDottedChar_of_isWordChar (fits.word char inTable)
    · rcases mem_cons.mp inKey with rfl | there
      · decide
      · exact keys char there
  · obtain ⟨char, rest, same⟩ := fits.cons
    have first := fits.first
    rw [same] at first ⊢
    exact first

/-- A line of a full name and a sign, wherever it stands. -/
theorem full_quiet (fits : LuaName own) {indent name before rest : List Char}
    (spaces : ∀ char ∈ indent, isSpace char = true)
    (keys : ∀ char ∈ name, isDottedChar char = true)
    (blanks : ∀ char ∈ before, isSpace char = true)
    (other : own ++ '.' :: name ≠ table ++ '.' :: key) :
    DottedForm (indent ++ ((own ++ '.' :: name) ++ (before ++ '=' :: rest))) ∧
      LuaQuiet table key path (indent ++ ((own ++ '.' :: name) ++ (before ++ '=' :: rest))) := by
  have form : DottedForm (indent ++ ((own ++ '.' :: name) ++ (before ++ '=' :: rest))) := by
    have form := @dottedForm indent own (name ++ (before ++ '=' :: rest)) spaces fits
    rwa [append_assoc own]
  obtain ⟨dotted, first⟩ := dotted_full fits keys
  refine ⟨form, form.quiet fun pair read => ?_⟩
  rw [luaDotted_named spaces dotted first blanks read]
  exact other

theorem luaDottedLine_eq (own : List Char) (pair : List Char × List Char) :
    chomp (luaDottedLine own pair) =
      [] ++ ((own ++ '.' :: pair.1) ++ ([' '] ++ '=' :: chomp (' ' :: pair.2))) := by
  have built := chomp_built [] (own ++ '.' :: pair.1) [' '] (' ' :: pair.2)
  rw [← built]
  unfold luaDottedLine
  simp

theorem luaDottedLine_quiet (fits : LuaWanted own wanted) {pair : List Char × List Char}
    (member : pair ∈ wanted.entries) (other : own ++ '.' :: pair.1 ≠ table ++ '.' :: key) :
    DottedForm (chomp (luaDottedLine own pair)) ∧
      LuaQuiet table key path (chomp (luaDottedLine own pair)) := by
  rw [luaDottedLine_eq]
  exact full_quiet fits.table no_blanks (fits.keys pair member) (by exact List.all_eq_true.mp rfl) other

theorem luaDottedLine_clean (fits : LuaWanted own wanted) {pair : List Char × List Char}
    (member : pair ∈ wanted.entries) : '\n' ∉ luaDottedLine own pair := by
  have table_ := fits.table.clean
  have key_ := clean_of_keys keyClass_dotted (fits.keys pair member)
  have value_ := fits.clean pair member
  unfold luaDottedLine
  simp [table_, key_, value_]

theorem luaBaseLine_eq (indent own module_ : List Char) :
    chomp (indent ++ luaBaseLine own module_) =
      indent ++ (own ++ ([' '] ++ '=' :: (" require \"".toList ++ module_ ++ ['"']))) := by
  have quoted := chomp_append_cons (indent ++ own ++ " = require \"".toList ++ module_)
    (by decide : '"' ≠ '\r') []
  have nothing : chomp [] = [] := rfl
  unfold luaBaseLine
  simpa [nothing] using quoted

theorem luaBaseLine_clean {indent module_ : List Char} (fits : LuaName own)
    (spaces : '\n' ∉ indent) (clean : '\n' ∉ module_) : '\n' ∉ indent ++ luaBaseLine own module_ := by
  have table_ := fits.clean
  unfold luaBaseLine
  simp [table_, clean, spaces]

/-- A line that a table starts from, where no table is open. -/
theorem start_quiet {indent before rest : List Char} (fits : LuaName own)
    (spaces : ∀ char ∈ indent, isSpace char = true)
    (blanks : ∀ char ∈ before, isSpace char = true)
    (closed_ : (rest.dropWhile isSpace).head? ≠ some '{') :
    LuaQuiet table key [] (indent ++ (own ++ (before ++ '=' :: rest))) := by
  obtain ⟨closes, pair, dotted⟩ := @signed_names indent own before rest spaces fits blanks
  refine ⟨luaNext_of_none (signed_opens spaces fits blanks closed_) closes, ?_⟩
  exact luaGives_of_signed fits pair dotted nofun

theorem luaBaseLine_quiet {indent module_ : List Char} (fits : LuaName own)
    (spaces : ∀ char ∈ indent, isSpace char = true) :
    LuaQuiet table key [] (chomp (indent ++ luaBaseLine own module_)) := by
  rw [luaBaseLine_eq]
  refine start_quiet fits spaces (by exact List.all_eq_true.mp rfl) ?_
  exact (by decide : some 'r' ≠ some '{')

/-! ### The shape the panel writes -/

theorem after_some {part text rest : List Char} (some_ : after part text = some rest) :
    text = part ++ rest := by
  unfold after at some_
  obtain ⟨begins, same⟩ := ite_none_right_eq_some.mp some_
  obtain ⟨more, rfl⟩ := isPrefixOf_iff_prefix.mp begins
  rw [← some.inj same, drop_left]

variable {line : Line}

/-- A line of a key of the table, by its full name. -/
theorem dottedKey_parts {pair : Pair} {name : List Char}
    (read : dottedKey own line = some (pair, name)) :
    luaDotted line = some pair ∧ pair.key = own ++ '.' :: name ∧
      (∀ char ∈ name, isDottedChar char = true) := by
  unfold dottedKey at read
  obtain ⟨pair_, dotted, found⟩ := bind_eq_some_iff.mp read
  obtain ⟨name_, same, made⟩ := map_eq_some_iff.mp found
  obtain ⟨rfl, rfl⟩ := Prod.mk.inj made
  have whole := after_some same
  rw [append_assoc] at whole
  refine ⟨dotted, whole, fun char member => (luaDotted_makes dotted).key char ?_⟩
  rw [whole]
  exact mem_append_right _ (mem_cons_of_mem _ member)

/-- The line of a key with its value in it. -/
theorem dotted_rewritten {pair : Pair} {name : List Char} (value : List Char)
    (read : dottedKey own line = some (pair, name)) :
    ∃ before after_, (∀ char ∈ before, isSpace char = true) ∧
      (∀ char ∈ after_, isSpace char = true) ∧ pair.separator = before ++ '=' :: after_ ∧
      chomp (pair.indent ++ own ++ '.' :: name ++ pair.separator ++ value) =
        pair.indent ++ ((own ++ '.' :: name) ++ (before ++ '=' :: chomp (after_ ++ value))) := by
  obtain ⟨dotted, -, -⟩ := dottedKey_parts read
  obtain ⟨before, after_, same, blanks, around⟩ := (luaDotted_makes dotted).sign.parts
  refine ⟨before, after_, blanks, around, same, ?_⟩
  rw [← chomp_built, same]
  simp

/-- A line of the shape the panel writes is read as it was, for a key the patch does not name. -/
theorem dottedLine_alike (fits : LuaWanted own wanted) {base : Option (List Char)}
    (settled : chomp line = line)
    (other : ∀ pair ∈ wanted.entries, own ++ '.' :: pair.1 ≠ table ++ '.' :: key)
    (outside : base.isSome = true → (luaModule own line).isSome = true → path = []) :
    luaNext path (chomp (dottedLine own base wanted line)) = luaNext path line ∧
      luaGives table key path (chomp (dottedLine own base wanted line)) =
        luaGives table key path line := by
  unfold dottedLine
  split
  · rename_i indent name module_ found
    split
    · rw [settled]
      exact ⟨rfl, rfl⟩
    · rename_i module_'
      obtain ⟨read, named⟩ := filter_eq_some_iff.mp found
      have here : path = [] := outside rfl (by
        unfold luaModule
        rw [found]
        rfl)
      obtain ⟨before, rest, same, spaces, name_, blanks, closed_⟩ := luaBase_makes read
      have old := @start_quiet table name key indent before rest name_ spaces blanks closed_
      have new := @luaBaseLine_quiet table own key indent module_' fits.table spaces
      rw [here, same]
      exact ⟨new.1.trans old.1.symm, new.2.trans old.2.symm⟩
  · split
    · rw [settled]
      exact ⟨rfl, rfl⟩
    · rename_i pair name found
      split
      · rw [settled]
        exact ⟨rfl, rfl⟩
      · rename_i value has
        obtain ⟨dotted, whole, keys⟩ := dottedKey_parts found
        obtain ⟨before, after_, blanks, -, sep, new⟩ := dotted_rewritten value found
        obtain ⟨more, same⟩ := (luaDotted_makes dotted).line
        have spaces := (luaDotted_makes dotted).indent
        have apart := other _ (Record.mem_of_get has)
        have quietNew := (@full_quiet table own key path fits.table _ _ _ (chomp (after_ ++ value))
          spaces keys blanks apart).2
        have quietOld := (@full_quiet table own key path fits.table _ _ _ (after_ ++ more)
          spaces keys blanks apart).2
        have old : line = pair.indent ++ ((own ++ '.' :: name) ++ (before ++ '=' ::
            (after_ ++ more))) := by
          rw [same, whole, sep]
          simp
        rw [new, old]
        exact ⟨quietNew.1.trans quietOld.1.symm, quietNew.2.trans quietOld.2.symm⟩

theorem luaModule_none (none_ : luaBase line = none) : luaModule table line = none := by
  unfold luaModule
  rw [none_]
  rfl

theorem luaModule_other (other : ∀ found, luaBase line = some found → found.2.1 ≠ table) :
    luaModule table line = none := by
  unfold luaModule
  cases read : luaBase line with
  | none => rfl
  | some found =>
    rw [filter_some_neg]
    · rfl
    · rw [beq_eq_false_iff_ne]
      exact other found read

theorem luaBaseLine_module {indent module_ : List Char} (fits : LuaName own)
    (spaces : ∀ char ∈ indent, isSpace char = true) (other : own ≠ table) :
    luaModule table (chomp (indent ++ luaBaseLine own module_)) = none := by
  rw [luaBaseLine_eq]
  refine luaModule_other fun found read => ?_
  rw [luaBase_named spaces fits (by exact List.all_eq_true.mp rfl) read]
  exact other

/-- A line of the shape the panel writes starts the tables it started, but for the patch's own. -/
theorem dottedLine_module (fits : LuaWanted own wanted) {base : Option (List Char)}
    (settled : chomp line = line) (other : base.isSome = true → own ≠ table) :
    luaModule table (chomp (dottedLine own base wanted line)) = luaModule table line := by
  unfold dottedLine
  split
  · rename_i indent name module_ found
    split
    · rw [settled]
    · obtain ⟨read, named⟩ := filter_eq_some_iff.mp found
      obtain ⟨before, rest, same, spaces, -⟩ := luaBase_makes read
      rw [luaBaseLine_module fits.table spaces (other rfl), luaModule_other]
      intro one again
      rw [read] at again
      rw [← some.inj again]
      intro equal
      exact other rfl ((beq_iff_eq.mp named).symm.trans equal)
  · split
    · rw [settled]
    · rename_i pair name found
      split
      · rw [settled]
      · rename_i value has
        obtain ⟨dotted, whole, keys⟩ := dottedKey_parts found
        obtain ⟨before, after_, blanks, -, sep, new⟩ := dotted_rewritten value found
        obtain ⟨more, same⟩ := (luaDotted_makes dotted).line
        have spaces := (luaDotted_makes dotted).indent
        rw [new, same, whole]
        simp only [append_assoc, cons_append]
        rw [luaModule_none (dottedForm spaces fits.table).base,
          luaModule_none (dottedForm spaces fits.table).base]

theorem dottedLine_clean (fits : LuaWanted own wanted) {base : Option (List Char)}
    (clean : '\n' ∉ line) (module_ : ∀ text, base = some text → '\n' ∉ text) :
    '\n' ∉ dottedLine own base wanted line := by
  unfold dottedLine
  split
  · rename_i indent name old found
    split
    · exact clean
    · rename_i text
      obtain ⟨before, rest, same, -⟩ := luaBase_makes (filter_eq_some_iff.mp found).1
      rw [same] at clean
      exact luaBaseLine_clean fits.table (fun inside => clean (mem_append_left _ inside))
        (module_ text rfl)
  · split
    · exact clean
    · rename_i pair name found
      split
      · exact clean
      · rename_i value has
        obtain ⟨dotted, whole, keys⟩ := dottedKey_parts found
        obtain ⟨more, same⟩ := (luaDotted_makes dotted).line
        have value_ : '\n' ∉ value := fits.clean _ (Record.mem_of_get has)
        have name_ := clean_of_keys keyClass_dotted keys
        have table_ := fits.table.clean
        rw [same] at clean
        simp only [mem_append, not_or] at clean
        simp [clean.1, clean.2.2.1, table_, name_, value_]

/-! ### The shape the game writes -/

theorem nestedKey_parts {pair : Pair} {comma name : List Char}
    (found : nestedKey own path line = some (pair, comma, name)) :
    luaOpen line = none ∧ luaClose line = false ∧ path.head? = some own ∧
      luaPair line = some (pair, comma) ∧ name = dottedName (path.tail ++ [pair.key]) := by
  unfold nestedKey at found
  split at found
  · cases found
  · rename_i inside
    simp only [Bool.or_eq_true, not_or, bne_iff_ne, ne_eq, not_not, Bool.not_eq_true,
      isSome_eq_false_iff, isNone_iff_eq_none] at inside
    obtain ⟨⟨pair_, comma_⟩, read, made⟩ := map_eq_some_iff.mp found
    obtain ⟨same, made_⟩ := Prod.mk.inj made
    obtain ⟨commas, names_⟩ := Prod.mk.inj made_
    dsimp only at same commas names_
    rw [same] at names_
    exact ⟨inside.1.1, inside.1.2, inside.2, by rw [read, same, commas], names_.symm⟩

/-- The line of a name inside a table, with a literal in it. -/
theorem nested_rewritten {pair : Pair} {comma value : List Char}
    (read : luaPair line = some (pair, comma)) (literal : LuaLiteral value) :
    SignedForm pair.key
      (chomp (pair.indent ++ pair.key ++ pair.separator ++ value ++ comma)) := by
  obtain ⟨-, spaces, name_, sign, commas⟩ := luaPair_makes read
  obtain ⟨before, after_, sep, blanks, around⟩ := sign.parts
  obtain ⟨⟨char, rest, valueIs, solid, brace⟩, local_⟩ := literal
  have carriage : char ≠ '\r' := by
    rintro rfl
    exact absurd solid (by decide)
  have new : chomp (pair.indent ++ pair.key ++ pair.separator ++ value ++ comma) =
      pair.indent ++ (pair.key ++ (before ++ '=' ::
        (after_ ++ char :: chomp (rest ++ comma)))) := by
    have built := chomp_append_cons (pair.indent ++ pair.key ++ before ++ '=' :: after_)
      carriage (rest ++ comma)
    rw [sep, valueIs]
    simpa using built
  have value_ : (after_ ++ char :: chomp (rest ++ comma)).dropWhile isSpace =
      char :: chomp (rest ++ comma) := by
    rw [dropWhile_append_of_pos around,
      dropWhile_cons_of_neg (by rw [solid]; exact Bool.false_ne_true)]
  rw [new]
  refine signedForm spaces name_ blanks ?_ ?_
  · rw [value_]
    exact fun same => brace (some.inj same)
  · rw [value_]
    intro begins
    obtain ⟨end_, whole⟩ : chomp (rest ++ comma) <+: rest ++ comma := by
      rcases chomp_cases (rest ++ comma) with same | same
      · rw [same]
      · exact ⟨['\r'], same.symm⟩
    have inValue : "require".toList <+: value ++ comma := by
      refine begins.trans ⟨end_, ?_⟩
      rw [valueIs, cons_append, cons_append, whole]
    rcases commas with none_ | one
    · rw [none_, append_nil] at inValue
      exact local_ inValue
    · rw [one, prefix_concat_iff] at inValue
      rcases inValue with ends | begins_
      · have last := congrArg List.getLast? ends
        rw [getLast?_concat] at last
        exact absurd last (by decide)
      · exact local_ begins_

/-- A line of the shape the game writes is read as it was, for a key the patch does not name. -/
theorem nestedLine_alike (fits : LuaWanted own wanted) {line : Line} (settled : chomp line = line)
    (other : ∀ pair ∈ wanted.entries, own ++ '.' :: pair.1 ≠ table ++ '.' :: key) :
    luaNext path (chomp (nestedLine own wanted path line)) = luaNext path line ∧
      luaGives table key path (chomp (nestedLine own wanted path line)) =
        luaGives table key path line := by
  unfold nestedLine
  split
  · rw [settled]
    exact ⟨rfl, rfl⟩
  · rename_i pair comma name found
    split
    · rw [settled]
      exact ⟨rfl, rfl⟩
    · rename_i value has
      obtain ⟨opens, closes, top, read, rfl⟩ := nestedKey_parts found
      obtain ⟨⟨more, same⟩, spaces, name_, sign, -⟩ := luaPair_makes read
      obtain ⟨before, after_, sep, blanks, -⟩ := sign.parts
      have form := nested_rewritten read (fits.literals _ (Record.mem_of_get has))
      have quiet : ∀ text, (∀ found, luaPair text = some found → found.1.key = pair.key) →
          (∀ found, luaDotted text = some found → found.key = pair.key) →
          luaGives table key path text = none := by
        intro text pairs dotted
        refine luaGives_of_signed name_ pairs dotted fun here named => ?_
        have table_ : own = table := some.inj (top.symm.trans here)
        refine other _ (Record.mem_of_get has) ?_
        rw [table_, ← named]
      have old : luaGives table key path line = none := by
        refine quiet line (fun found again => ?_) fun found again => ?_
        · rw [read] at again
          rw [← some.inj again]
        · rw [same, sep, append_assoc, cons_append] at again
          exact luaDotted_named spaces (fun one member => isDottedChar_of_isWordChar
            (name_.word one member)) name_.first blanks again
      rw [luaNext_of_none opens closes, old]
      exact ⟨luaNext_of_none form.opens form.closes, quiet _ form.pair form.dotted⟩

/-- A line of the shape the game writes starts no table when it started none. -/
theorem nestedLine_base (fits : LuaWanted own wanted) (settled : chomp line = line)
    (none_ : luaBase line = none) : luaBase (chomp (nestedLine own wanted path line)) = none := by
  unfold nestedLine
  split
  · rwa [settled]
  · rename_i pair comma name found
    split
    · rwa [settled]
    · rename_i value has
      obtain ⟨-, -, -, read, -⟩ := nestedKey_parts found
      exact (nested_rewritten read (fits.literals _ (Record.mem_of_get has))).base

theorem nestedLine_clean (fits : LuaWanted own wanted) (clean : '\n' ∉ line) :
    '\n' ∉ nestedLine own wanted path line := by
  unfold nestedLine
  split
  · exact clean
  · rename_i pair comma name found
    split
    · exact clean
    · rename_i value has
      obtain ⟨-, -, -, read, -⟩ := nestedKey_parts found
      obtain ⟨⟨more, same⟩, -, -, -, commas⟩ := luaPair_makes read
      have value_ : '\n' ∉ value := fits.clean _ (Record.mem_of_get has)
      have comma_ : '\n' ∉ comma := by
        rcases commas with rfl | rfl
        · exact not_mem_nil
        · decide
      rw [same] at clean
      simp only [mem_append, not_or] at clean
      simp [clean.1, clean.2.1, clean.2.2.1, value_, comma_]

end Lines

/-! ### The whole file -/

/-- These lines are read as those were, for one key of one table. -/
structure LuaSame (table key : List Char) (lines old : List Line) : Prop where
  clean : ∀ line ∈ lines, '\n' ∉ line
  literals : key ≠ [] → ReadAlike luaNext (luaGives table key) [] (lines.map chomp) old
  modules : key = [] →
    (lines.map chomp).findSome? (luaModule table) = old.findSome? (luaModule table)

section Whole

variable {table own key : List Char} {wanted : Record (List Char) (List Char)}
  {entries : List Entry} {existing content : List Char}

theorem luaGives_nil (path : List (List Char)) : luaGives table key path [] = none :=
  (idle_quiet (Or.inl rfl)).2

theorem findSome_rest {lines rest : List Line} (nothing : ∀ line ∈ rest, line = []) :
    (lines ++ rest).findSome? (luaModule table) = lines.findSome? (luaModule table) := by
  rw [findSome?_append]
  have none_ : rest.findSome? (luaModule table) = none := by
    rw [findSome?_eq_none_iff]
    intro line member
    rw [nothing line member]
    rfl
  rw [none_, or_none]

/-- What is read of the file that these lines are put together into. -/
theorem readLuaValue_same {lines : List Line} (same : LuaSame table key lines (splitLines existing))
    (put : content = joinLines lines ++ ['\n'] ∨ content = closed (joinLines lines)) :
    readLuaValue content table key = readLuaValue existing table key := by
  unfold readLuaValue
  by_cases base : key = []
  · subst base
    obtain ⟨rest, nothing, parts⟩ : ∃ rest, (∀ line ∈ rest, line = []) ∧
        splitLines content = lines.map chomp ++ rest := by
      rcases put with rfl | rfl
      · exact splitLines_ended_rest same.clean
      · exact splitLines_closed same.clean
    rw [isEmpty_nil, if_pos rfl, if_pos rfl, parts, findSome_rest nothing, same.modules rfl]
  · rw [if_neg (by simpa using base), if_neg (by simpa using base)]
    have literal : luaLiteral content table key = luaLiteral existing table key := by
      unfold luaLiteral
      rcases put with rfl | rfl
      · rw [lastGiven_ended same.clean luaGives_nil (fun _ => rfl)]
        exact (same.literals base).lastGiven_eq
      · rw [lastGiven_closed same.clean luaGives_nil (fun _ => rfl)]
        exact (same.literals base).lastGiven_eq
    rw [literal]

/-- The full names that the merge writes are not the one that is asked for. -/
def OtherNames (own : List Char) (wanted : Record (List Char) (List Char))
    (table key : List Char) : Prop :=
  key ≠ [] → ∀ pair ∈ wanted.entries, own ++ '.' :: pair.1 ≠ table ++ '.' :: key

theorem added_same (fits : LuaWanted own wanted) (other : OtherNames own wanted table key)
    (keep : List Char × List Char → Bool) :
    (∀ line ∈ (wanted.entries.filter keep).map (luaDottedLine own), '\n' ∉ line) ∧
      (key ≠ [] → ∀ path, ReadAlike luaNext (luaGives table key) path
        (((wanted.entries.filter keep).map (luaDottedLine own)).map chomp) []) ∧
      ∀ line ∈ (wanted.entries.filter keep).map (luaDottedLine own),
        luaModule table (chomp line) = none := by
  refine ⟨fun line member => ?_, fun some_ path => readAlike_nil fun line member => ?_,
    fun line member => ?_⟩
  · obtain ⟨pair, inside, rfl⟩ := List.mem_map.mp member
    exact luaDottedLine_clean fits (mem_filter.mp inside).1
  · obtain ⟨written, there, rfl⟩ := List.mem_map.mp member
    obtain ⟨pair, inside, rfl⟩ := List.mem_map.mp there
    have there := (mem_filter.mp inside).1
    exact (luaDottedLine_quiet fits there (other some_ pair there)).2
  · obtain ⟨pair, inside, rfl⟩ := List.mem_map.mp member
    rw [luaDottedLine_eq, append_assoc own, cons_append]
    exact luaModule_none (dottedForm no_blanks fits.table).base

theorem findSome_congr {lines : List Line} {first second : Line → Option (List Char)}
    (same : ∀ line ∈ lines, first line = second line) :
    lines.findSome? first = lines.findSome? second := by
  induction lines with
  | nil => rfl
  | cons line lines inductionHypothesis =>
    obtain ⟨here, there⟩ := forall_mem_cons.mp same
    rw [findSome?_cons, findSome?_cons, here, inductionHypothesis there]

theorem findSome_none {lines : List Line} (none_ : ∀ line ∈ lines, luaModule table line = none) :
    lines.findSome? (luaModule table) = none :=
  findSome?_eq_none_iff.mpr none_

/-- A file with nothing in it, made. -/
theorem fresh_same (fits : LuaWanted own wanted) (other : OtherNames own wanted table key)
    {module_ : List Char} (clean : '\n' ∉ module_) (based : key = [] → own ≠ table)
    {old : List Line} (idle : old.all luaIdle = true) :
    LuaSame table key (luaFresh own module_ wanted) old := by
  have comments : ∀ line ∈ freshComments, luaIdle (chomp line) = true ∧ '\n' ∉ line := by
    decide +kernel
  obtain ⟨addedClean, addedQuiet, addedModules⟩ := added_same fits other fun _ => true
  rw [filter_true] at addedClean addedQuiet addedModules
  have oldIdle := List.all_eq_true.mp idle
  unfold luaFresh
  refine ⟨fun line member => ?_, fun some_ => ?_, fun base => ?_⟩
  · rcases mem_append.mp member with comment | rest
    · exact (comments line comment).2
    · rcases mem_cons.mp rest with rfl | added
      · exact @luaBaseLine_clean own [] module_ fits.table not_mem_nil clean
      · exact addedClean line added
  · refine ReadAlike.trans ?_ (readAlike_nil fun line member =>
      idle_quiet (idle_of_luaIdle (oldIdle line member))).symm
    rw [map_append, map_cons]
    refine .append_nothing (readAlike_nil fun line member => ?_)
      (.append_nothing (readAlike_nothing ?_ ?_) (addedQuiet some_ _))
    · obtain ⟨comment, there, rfl⟩ := List.mem_map.mp member
      exact idle_quiet (idle_of_luaIdle (comments comment there).1)
    · exact (@luaBaseLine_quiet table own key [] module_ fits.table no_blanks).1
    · exact (@luaBaseLine_quiet table own key [] module_ fits.table no_blanks).2
  · rw [findSome_none fun line member =>
      luaModule_none (idleForm (idle_of_luaIdle (oldIdle line member))).1.base]
    refine findSome_none fun line member => ?_
    obtain ⟨written, there, rfl⟩ := List.mem_map.mp member
    rcases mem_append.mp there with comment | rest
    · exact luaModule_none (idleForm (idle_of_luaIdle (comments written comment).1)).1.base
    · rcases mem_cons.mp rest with rfl | added
      · exact @luaBaseLine_module table own [] module_ fits.table no_blanks (based base)
      · exact addedModules written added

/-- A file of the shape the panel writes. -/
theorem dotted_same (fits : LuaWanted own wanted) (other : OtherNames own wanted table key)
    {base : Option (List Char)} (clean : ∀ text, base = some text → '\n' ∉ text)
    (based : key = [] → base.isSome = true → own ≠ table) (settled : Settled existing)
    (outside : base.isSome = true → Outside own existing) (keep : List Char × List Char → Bool) :
    LuaSame table key
      (((splitLines existing).map (dottedLine own base wanted)).rdropWhile isBlankLine ++
        (wanted.entries.filter keep).map (luaDottedLine own))
      (splitLines existing) := by
  obtain ⟨addedClean, addedQuiet, addedModules⟩ := added_same fits other keep
  have whole : ∀ lines : List Line, lines = lines.rdropWhile isBlankLine ++ lines.rtakeWhile isBlankLine :=
    fun lines => (rdropWhile_append_rtakeWhile).symm
  have blank : ∀ lines : List Line, ∀ line ∈ lines.rtakeWhile isBlankLine,
      (chomp line).dropWhile isSpace = [] :=
    fun lines line member => blank_chomp (mem_rtakeWhile_imp member)
  refine ⟨fun line member => ?_, fun some_ => ?_, fun empty => ?_⟩
  · rcases mem_append.mp member with kept | added
    · obtain ⟨old, there, rfl⟩ := List.mem_map.mp
        ((List.rdropWhile_prefix _ _).subset kept)
      exact dottedLine_clean fits (clean_of_mem_splitLines there) clean
    · exact addedClean line added
  · rw [map_append, ← append_nil (splitLines existing)]
    refine .append ?_ (addedQuiet some_ _)
    rw [append_nil]
    refine .trans ?_ (@readAlike_map_along _ _ _ luaNext (luaGives table key)
      (fun line => chomp (dottedLine own base wanted line)) (splitLines existing) []
      fun front line back parts => ?_)
    · have rest : ∀ state, ReadAlike luaNext (luaGives table key) state
          ((((splitLines existing).map (dottedLine own base wanted)).rtakeWhile isBlankLine).map chomp)
          [] := by
        refine fun state => readAlike_nil fun line member => ?_
        obtain ⟨written, there, rfl⟩ := List.mem_map.mp member
        exact idle_quiet (Or.inl (blank _ written there))
      have all := (ReadAlike.refl [] ((((splitLines existing).map (dottedLine own base wanted)
        ).rdropWhile isBlankLine).map chomp)).append (rest _).symm
      rw [append_nil, ← map_append, ← whole, List.map_map] at all
      exact all
    · refine dottedLine_alike fits (settled line ?_) (other some_) fun isBase starts => ?_
      · rw [parts]
        exact mem_append_right _ mem_cons_self
      · exact outside isBase front line back parts starts
  · have added : (((wanted.entries.filter keep).map (luaDottedLine own)).map chomp).findSome?
        (luaModule table) = none := by
      refine findSome_none fun line member => ?_
      obtain ⟨written, there, rfl⟩ := List.mem_map.mp member
      exact addedModules written there
    have rest : ((((splitLines existing).map (dottedLine own base wanted)).rtakeWhile
        isBlankLine).map chomp).findSome? (luaModule table) = none := by
      refine findSome_none fun line member => ?_
      obtain ⟨written, there, rfl⟩ := List.mem_map.mp member
      exact luaModule_none (idleForm (Or.inl (blank _ written there))).1.base
    have all : (((splitLines existing).map (dottedLine own base wanted)).map chomp).findSome?
        (luaModule table) = (splitLines existing).findSome? (luaModule table) := by
      rw [List.map_map, findSome?_map]
      refine findSome_congr fun line member => ?_
      exact dottedLine_module fits (settled line member) (based empty)
    rw [whole ((splitLines existing).map (dottedLine own base wanted)), map_append,
      findSome?_append, rest, or_none] at all
    rw [map_append, findSome?_append, added, or_none, all]

theorem nestedLines_same (fits : LuaWanted own wanted) (other : OtherNames own wanted table key)
    (path : List (List Char)) {lines : List Line}
    (settled : ∀ line ∈ lines, chomp line = line ∧ '\n' ∉ line ∧ luaBase line = none) :
    (∀ line ∈ nestedLines own wanted path lines, '\n' ∉ line) ∧
      (key ≠ [] → ReadAlike luaNext (luaGives table key) path
        ((nestedLines own wanted path lines).map chomp) lines) ∧
      ∀ line ∈ nestedLines own wanted path lines, luaBase (chomp line) = none := by
  induction lines generalizing path with
  | nil =>
    exact ⟨fun _ member => absurd member not_mem_nil, fun _ => .refl _ _,
      fun _ member => absurd member not_mem_nil⟩
  | cons line lines inductionHypothesis =>
    obtain ⟨here, there⟩ := forall_mem_cons.mp settled
    obtain ⟨clean, alike, none_⟩ := inductionHypothesis (luaNext path line) there
    unfold nestedLines
    refine ⟨?_, fun some_ => ?_, ?_⟩
    · exact forall_mem_cons.mpr ⟨nestedLine_clean fits here.2.1, clean⟩
    · obtain ⟨sameNext, sameGiven⟩ := @nestedLine_alike table own key wanted path fits line
        here.1 (other some_)
      exact (readAlike_line sameNext sameGiven).append (alike some_)
    · exact forall_mem_cons.mpr ⟨nestedLine_base fits here.1 here.2.2, none_⟩

/-- The module that the entries of a patch start their table from. -/
abbrev luaStart (entries : List Entry) : Option (List Char) :=
  (entries.find? fun entry => entry.key.isEmpty).map Entry.value

/-- The keys that the entries of a patch give their table. -/
abbrev luaKeys (entries : List Entry) : Record (List Char) (List Char) :=
  wantedOf (entries.filter fun entry => !entry.key.isEmpty)

/-- What becomes of a file that a table's start and keys are put in: it is made anew, its tables
are reached by their full names, or its tables are open as the game writes them. -/
inductive MergedLua (own : List Char) (base : Option (List Char))
    (wanted : Record (List Char) (List Char)) (existing : List Char) : List Char → Prop where
  | fresh (module_ : List Char) (idle : (splitLines existing).all luaIdle = true)
      (start : base = some module_) :
      MergedLua own base wanted existing (joinLines (luaFresh own module_ wanted) ++ ['\n'])
  | dotted (starts : (splitLines existing).any (fun line => (luaBase line).isSome) = true) :
      MergedLua own base wanted existing (joinLines
        (((splitLines existing).map (dottedLine own base wanted)).rdropWhile isBlankLine ++
          (wanted.entries.filter fun entry => !(splitLines existing).any fun line =>
            !((luaBase line).any fun found => found.2.1 == own) &&
              (dottedKey own line).any fun found => found.2 == entry.1).map
            (luaDottedLine own)) ++ ['\n'])
  | nested (none_ : ¬(splitLines existing).any (fun line => (luaBase line).isSome) = true)
      (baseless : base = none)
      (found : ∀ key ∈ wanted.keys, key ∈ nestedKeys own [] (splitLines existing)) :
      MergedLua own base wanted existing (closed (joinLines (nestedLines own wanted []
        (splitLines existing))))

theorem mergedLua_of_mergeLua {file : String}
    (merged : mergeLua existing entries file = .ok content) :
    ∃ own, (entries.map Entry.section_).eraseDups = [own] ∧
      MergedLua own (luaStart entries) (luaKeys entries) existing content := by
  unfold mergeLua at merged
  dsimp only at merged
  split at merged
  · rename_i own single
    refine ⟨own, single, ?_⟩
    split at merged
    · rename_i idle
      split at merged
      · cases merged
      · rename_i module_ start
        obtain rfl := Except.ok.inj merged
        exact .fresh module_ idle start
    · split at merged
      · rename_i starts
        obtain rfl := Except.ok.inj merged
        exact .dotted starts
      · rename_i none_
        split at merged
        · cases merged
        · split at merged
          · cases merged
          · rename_i baseless
            split at merged
            · cases merged
            · rename_i missing
              obtain rfl := Except.ok.inj merged
              exact .nested none_ (not_isSome_iff_eq_none.mp baseless) fun key member => by
                simpa using find?_eq_none.mp missing key member
  · cases merged

theorem entry_of_luaStart {text : List Char} (start : luaStart entries = some text) :
    ∃ entry ∈ entries, entry.key = [] ∧ entry.value = text := by
  obtain ⟨entry, is, value_⟩ := map_eq_some_iff.mp start
  have keyless := find?_some is
  exact ⟨entry, mem_of_find?_eq_some is, by simpa using keyless, value_⟩

theorem entry_of_luaKeys {pair : List Char × List Char} (member : pair ∈ (luaKeys entries).entries) :
    ∃ entry ∈ entries, entry.key ≠ [] ∧ entry.key = pair.1 ∧ entry.value = pair.2 := by
  obtain ⟨entry, inside, key_, value_⟩ := @mem_wantedOf _ pair.1 pair.2 member
  obtain ⟨there, keyed⟩ := mem_filter.mp inside
  exact ⟨entry, there, by simpa using keyed, key_, value_⟩

/-- What the entries of a patch make of a file: they are of one table. -/
theorem mergeLua_cases (orderly : LuaEntries entries) {file : String}
    (merged : mergeLua existing entries file = .ok content) :
    ∃ own, (∀ entry ∈ entries, entry.section_ = own) ∧ LuaWanted own (luaKeys entries) ∧
      (∀ text, luaStart entries = some text → '\n' ∉ text) ∧
      MergedLua own (luaStart entries) (luaKeys entries) existing content := by
  obtain ⟨own, tables, forms⟩ := mergedLua_of_mergeLua merged
  have all : ∀ entry ∈ entries, entry.section_ = own := by
    intro entry member
    have there : entry.section_ ∈ (entries.map Entry.section_).eraseDups :=
      mem_eraseDups.mpr (List.mem_map_of_mem member)
    rw [tables] at there
    exact mem_singleton.mp there
  have name : LuaName own := by
    have there : own ∈ (entries.map Entry.section_).eraseDups := by
      rw [tables]
      exact mem_cons_self
    obtain ⟨entry, member, same⟩ := List.mem_map.mp (mem_eraseDups.mp there)
    exact same ▸ orderly.tables entry member
  refine ⟨own, all, ⟨name, ?_, ?_, ?_, ?_⟩, fun text start => ?_, forms⟩
  · intro pair member
    obtain ⟨entry, there, -, same, -⟩ := entry_of_luaKeys member
    exact same ▸ orderly.keys entry there
  · intro pair member
    obtain ⟨entry, there, some_, same, -⟩ := entry_of_luaKeys member
    exact same ▸ some_
  · intro pair member
    obtain ⟨entry, there, -, -, same⟩ := entry_of_luaKeys member
    exact same ▸ orderly.values entry there
  · intro pair member
    obtain ⟨entry, there, some_, -, same⟩ := entry_of_luaKeys member
    exact same ▸ orderly.literals entry there some_
  · obtain ⟨entry, there, -, rfl⟩ := entry_of_luaStart start
    exact orderly.values entry there

theorem baseless_of_none (settled : Settled existing)
    (none_ : ¬(splitLines existing).any (fun line => (luaBase line).isSome) = true) :
    ∀ line ∈ splitLines existing, chomp line = line ∧ '\n' ∉ line ∧ luaBase line = none := by
  intro line member
  refine ⟨settled line member, clean_of_mem_splitLines member, ?_⟩
  rw [List.any_eq_true] at none_
  by_contra some_
  exact none_ ⟨line, member, isSome_iff_ne_none.mpr some_⟩

/-- A key that the patch does not name is read as before, and so is the start of a table. -/
theorem readLuaValue_other (orderly : LuaEntries entries) (settled : Settled existing)
    (outside : ∀ entry ∈ entries, entry.key = [] → Outside entry.section_ existing)
    (apart : ∀ entry ∈ entries, ¬ LuaNames table key entry) {file : String}
    (merged : mergeLua existing entries file = .ok content) :
    readLuaValue content table key = readLuaValue existing table key := by
  obtain ⟨own, all, fits, clean, forms⟩ := mergeLua_cases orderly merged
  have other : OtherNames own (luaKeys entries) table key := by
    intro some_ pair member
    obtain ⟨entry, there, -, key_, -⟩ := entry_of_luaKeys member
    have distinct := apart entry there
    unfold LuaNames at distinct
    rw [if_neg some_, all entry there, key_] at distinct
    exact fun same => distinct ⟨fits.some_ pair member, same⟩
  have based : ∀ text, luaStart entries = some text → key = [] → own ≠ table := by
    intro text start empty same
    obtain ⟨entry, there, keyless, -⟩ := entry_of_luaStart start
    have distinct := apart entry there
    unfold LuaNames at distinct
    rw [if_pos empty, all entry there] at distinct
    exact distinct ⟨keyless, same⟩
  cases forms with
  | fresh module_ idle start =>
    exact readLuaValue_same (fresh_same fits other (clean module_ start) (based module_ start) idle)
      (.inl rfl)
  | dotted starts =>
    refine readLuaValue_same (dotted_same fits other clean (fun empty some_ => ?_) settled
      (fun some_ => ?_) _) (.inl rfl)
    · obtain ⟨text, start⟩ := isSome_iff_exists.mp some_
      exact based text start empty
    · obtain ⟨text, start⟩ := isSome_iff_exists.mp some_
      obtain ⟨entry, there, keyless, -⟩ := entry_of_luaStart start
      exact all entry there ▸ outside entry there keyless
  | nested none_ baseless found =>
    have lines := baseless_of_none settled none_
    obtain ⟨clean_, alike, still⟩ := nestedLines_same fits other [] lines
    refine readLuaValue_same ⟨clean_, alike, fun _ => ?_⟩ (.inr rfl)
    rw [findSome_none fun line member => luaModule_none (lines line member).2.2]
    refine findSome_none fun line member => ?_
    obtain ⟨written, there, rfl⟩ := List.mem_map.mp member
    exact luaModule_none (still written there)

end Whole

end Geeboard.Games
