/-
This file is about what a merge writes into a Lua file: a key that the patch names
holds the literal the patch has for it, and the table starts from the patch's
module.

A file has one of two shapes, and the merge writes into the one it finds. A key that
the file also assigns in the other shape may be read from there instead, so the
results are about files in which it is not.
-/

import Geeboard.Games.LuaFrames

namespace Geeboard.Games

open Text List Option

/-- A literal that is taken back as it was written. -/
structure LuaLegible (value : List Char) : Prop where
  literal : LuaLiteral value
  plain : value.all isPlain = true
  ended : trimEnd value = value
  comma : value.getLast? ≠ some ','

/-- The file assigns the key in one shape only: inside the table when nothing starts it from a
module, and by its full name otherwise. -/
def OneShape (table key existing : List Char) : Prop :=
  if (splitLines existing).any fun line => (luaBase line).isSome then
    key ∉ nestedKeys table [] (splitLines existing)
  else ∀ line ∈ splitLines existing, ∀ found, dottedKey table line = some found → found.2 ≠ key

section Lines

variable {own key value : List Char} {wanted : Record (List Char) (List Char)}
  {path : List (List Char)}

theorem dropWhile_chomp_literal {blanks value : List Char}
    (spaces : ∀ char ∈ blanks, isSpace char = true) (legible : LuaLegible value) :
    (chomp (blanks ++ value)).dropWhile isSpace = value := by
  refine dropWhile_chomp_legible spaces ⟨legible.plain, ?_⟩
  obtain ⟨char, rest, rfl, solid, -⟩ := legible.literal.first
  exact congrArg not solid

theorem luaGives_dotted {line : Line} {pair : Pair} (read : luaDotted line = some pair)
    (named : pair.key = own ++ '.' :: key) : luaGives own key path line = some pair.value := by
  unfold luaGives
  rw [read, filter_some_pos (by simpa using named)]

/-- A line of a full name and a literal. -/
theorem full_read (fits : LuaName own) {indent name before rest : List Char}
    (spaces : ∀ char ∈ indent, isSpace char = true)
    (keys : ∀ char ∈ name, isDottedChar char = true)
    (blanks : ∀ char ∈ before, isSpace char = true)
    (legible : LuaLegible value) (is : rest.dropWhile isSpace = value) :
    luaGives own key path (indent ++ ((own ++ '.' :: name) ++ (before ++ '=' :: rest))) =
      if name = key then some value else none := by
  obtain ⟨dotted, first⟩ := dotted_full fits keys
  by_cases mine : name = key
  · have read := @luaDotted_built indent (own ++ '.' :: name) before rest spaces dotted first blanks
    rw [is, legible.ended, if_pos legible.plain] at read
    rw [if_pos mine, luaGives_dotted read (by rw [mine])]
  · have other : own ++ '.' :: name ≠ own ++ '.' :: key := fun same =>
      mine (cons.inj (append_cancel_left same)).2
    rw [if_neg mine]
    exact (full_quiet fits spaces keys blanks other).2.2

theorem luaDottedLine_read (fits : LuaWanted own wanted)
    (legible : ∀ pair ∈ wanted.entries, LuaLegible pair.2) {pair : List Char × List Char}
    (member : pair ∈ wanted.entries) :
    luaNext path (chomp (luaDottedLine own pair)) = path ∧
      luaGives own key path (chomp (luaDottedLine own pair)) =
        if pair.1 = key then some pair.2 else none := by
  have fine := legible pair member
  have form : DottedForm (chomp (luaDottedLine own pair)) := by
    rw [luaDottedLine_eq, append_assoc own]
    exact dottedForm no_blanks fits.table
  refine ⟨luaNext_of_none form.opens form.closes, ?_⟩
  rw [luaDottedLine_eq]
  refine full_read fits.table no_blanks (fits.keys pair member) (by exact List.all_eq_true.mp rfl) fine ?_
  exact @dropWhile_chomp_literal [' '] pair.2 (by exact List.all_eq_true.mp rfl) fine

/-- The lines that are added for keys of the table. -/
theorem luaAdded_read (fits : LuaWanted own wanted)
    (legible : ∀ pair ∈ wanted.entries, LuaLegible pair.2) (has : wanted.get key = some value)
    (pairs : List (List Char × List Char)) (inside : ∀ pair ∈ pairs, pair ∈ wanted.entries) :
    Tends luaNext (luaGives own key) value path ((pairs.map (luaDottedLine own)).map chomp) ∧
      ((key, value) ∈ pairs →
        Gives luaNext (luaGives own key) value path ((pairs.map (luaDottedLine own)).map chomp)) := by
  have each : ∀ line ∈ (pairs.map (luaDottedLine own)).map chomp, ∀ path,
      luaGives own key path line = none ∨ luaGives own key path line = some value := by
    intro line member path
    obtain ⟨put, there, rfl⟩ := List.mem_map.mp member
    obtain ⟨pair, within, rfl⟩ := List.mem_map.mp there
    rw [(luaDottedLine_read fits legible (inside pair within)).2]
    split
    · rename_i mine
      have given : wanted.get pair.1 = some pair.2 := Record.get_of_mem (inside pair within)
      rw [mine, has] at given
      exact Or.inr given.symm
    · exact Or.inl rfl
  refine ⟨tends_of_lines path fun front line back parts => each line ?_ _, fun member => ?_⟩
  · rw [parts]
    exact mem_append_right _ mem_cons_self
  · refine gives_of_mem path each (List.mem_map_of_mem (List.mem_map_of_mem member)) fun path => ?_
    rw [(luaDottedLine_read fits legible (inside _ member)).2, if_pos rfl]

/-- A line that assigns the key in neither shape gives it nothing. -/
theorem luaGives_quiet {line : Line}
    (others : ∀ found, dottedKey own line = some found → found.2 ≠ key)
    (nested : ∀ found, nestedKey own path line = some found → found.2.2 ≠ key) :
    luaGives own key path line = none := by
  have none_ : (luaDotted line).filter (fun pair => pair.key == own ++ '.' :: key) = none := by
    cases read : luaDotted line with
    | none => rfl
    | some pair =>
      refine filter_other fun same => ?_
      have found : dottedKey own line = some (pair, key) := by
        unfold dottedKey
        rw [read, bind_some, same]
        have begins : (own ++ ['.']).isPrefixOf (own ++ '.' :: key) = true := by
          rw [List.isPrefixOf_iff_prefix]
          exact ⟨key, by rw [append_assoc]; rfl⟩
        unfold after
        rw [if_pos begins]
        have left : (own ++ '.' :: key).drop (own ++ ['.']).length = key := by
          have whole : own ++ '.' :: key = (own ++ ['.']) ++ key := by
            rw [append_assoc]
            rfl
          rw [whole, drop_left]
        rw [left]
        rfl
      exact others _ found rfl
  unfold luaGives
  rw [none_]
  dsimp only
  cases inside : nestedKey own path line with
  | none => rfl
  | some found =>
    rw [filter_some_neg (by simpa using nested found inside)]
    rfl

/-- A line of the shape the panel writes, for a key the patch names. -/
theorem dottedLine_read (fits : LuaWanted own wanted)
    (legible : ∀ pair ∈ wanted.entries, LuaLegible pair.2) (has : wanted.get key = some value)
    {base : Option (List Char)} {line : Line} (settled : chomp line = line)
    (outside : base.isSome = true → (luaModule own line).isSome = true → path = [])
    (nested : ∀ found, nestedKey own path line = some found → found.2.2 ≠ key) :
    (luaGives own key path (chomp (dottedLine own base wanted line)) = none ∨
      luaGives own key path (chomp (dottedLine own base wanted line)) = some value) ∧
      (((luaBase line).any fun found => found.2.1 == own) = false →
        ((dottedKey own line).any fun found => found.2 == key) = true →
        luaGives own key path (chomp (dottedLine own base wanted line)) = some value) := by
  unfold dottedLine
  split
  · rename_i indent name module_ found
    obtain ⟨read, named⟩ := filter_eq_some_iff.mp found
    have based : ((luaBase line).any fun found => found.2.1 == own) = true := by
      rw [read]
      exact named
    refine ⟨?_, fun unbased => by rw [based] at unbased; cases unbased⟩
    obtain ⟨before, rest, same, spaces, name_, blanks, closed_⟩ := luaBase_makes read
    have undotted : ∀ found, dottedKey own line = some found → found.2 ≠ key := by
      intro found keyed
      obtain ⟨dotted, whole, -⟩ := dottedKey_parts keyed
      have word : found.1.key = name := by
        rw [same] at dotted
        exact luaDotted_named spaces (fun char member => isDottedChar_of_isWordChar
          (name_.word char member)) name_.first blanks dotted
      exact absurd (word.symm.trans whole) (not_dotted name_)
    split
    · rw [settled]
      exact Or.inl (luaGives_quiet undotted nested)
    · have here : path = [] := outside rfl (by
        unfold luaModule
        rw [found]
        rfl)
      rw [here]
      exact Or.inl (luaBaseLine_quiet fits.table spaces).2
  · rename_i unbased
    split
    · rename_i none_
      rw [settled, none_]
      refine ⟨Or.inl (luaGives_quiet (fun found keyed => ?_) nested), fun _ => by rintro ⟨⟩⟩
      rw [none_] at keyed
      cases keyed
    · rename_i pair name found
      rw [found]
      split
      · rename_i unwanted
        have other : name ≠ key := by
          rintro rfl
          rw [has] at unwanted
          cases unwanted
        rw [settled]
        refine ⟨Or.inl (luaGives_quiet (fun one keyed => ?_) nested), fun _ same => ?_⟩
        · rw [found] at keyed
          obtain rfl := some.inj keyed
          exact other
        · exact absurd (by simpa using same) other
      · rename_i written given
        obtain ⟨dotted, whole, keys⟩ := dottedKey_parts found
        obtain ⟨before, after_, blanks, around, -, new⟩ := dotted_rewritten written found
        have spaces := (luaDotted_makes dotted).indent
        have fine := legible _ (Record.mem_of_get given)
        have read := @full_read own key written path fits.table pair.indent name before
          (chomp (after_ ++ written)) spaces keys blanks fine (dropWhile_chomp_literal around fine)
        rw [new, read]
        by_cases mine : name = key
        · rw [mine, has] at given
          rw [if_pos mine, some.inj given]
          exact ⟨Or.inr rfl, fun _ _ => rfl⟩
        · rw [if_neg mine]
          exact ⟨Or.inl rfl, fun _ same => absurd (by simpa using same) mine⟩

/-- A line inside the table with a literal in it, read there. -/
theorem nested_read {line : Line} {pair : Pair} {comma : List Char}
    (read : luaPair line = some (pair, comma)) (legible : LuaLegible value) (top : path.head? = some own) :
    luaGives own key path (chomp (pair.indent ++ pair.key ++ pair.separator ++ value ++ comma)) =
      if dottedName (path.tail ++ [pair.key]) = key then some value else none := by
  have form := nested_rewritten read legible.literal
  obtain ⟨-, spaces, name_, sign, commas⟩ := luaPair_makes read
  obtain ⟨before, after_, sep, blanks, around⟩ := sign.parts
  obtain ⟨char, rest, valueIs, solid, -⟩ := legible.literal.first
  have carriage : char ≠ '\r' := by
    rintro rfl
    exact absurd solid (by decide)
  have ended : trimEnd (value ++ comma) = value ++ comma ∧ chomp (rest ++ comma) = rest ++ comma := by
    rcases commas with rfl | rfl
    · rw [append_nil, append_nil]
      refine ⟨legible.ended, chomp_plain ?_⟩
      have plain := legible.plain
      rw [valueIs, all_cons] at plain
      exact (Bool.and_eq_true_iff.mp plain).2
    · refine ⟨rdropWhile_concat_neg _ _ _ (by decide), ?_⟩
      exact chomp_append_cons rest (by decide) []
  have new : chomp (pair.indent ++ pair.key ++ pair.separator ++ value ++ comma) =
      pair.indent ++ (pair.key ++ (before ++ '=' :: (after_ ++ (value ++ comma)))) := by
    have built := chomp_append_cons (pair.indent ++ pair.key ++ before ++ '=' :: after_)
      carriage (rest ++ comma)
    rw [ended.2] at built
    rw [sep, valueIs]
    simpa using built
  have behind : (after_ ++ (value ++ comma)).dropWhile isSpace = value ++ comma := by
    rw [dropWhile_append_of_pos around, valueIs, cons_append,
      dropWhile_cons_of_neg (by rw [solid]; exact Bool.false_ne_true)]
  have named := @namedLine_signed pair.indent pair.key before (after_ ++ (value ++ comma)) spaces
    name_ blanks
  have again : ∃ other comma_, luaPair
      (pair.indent ++ (pair.key ++ (before ++ '=' :: (after_ ++ (value ++ comma))))) =
        some (other, comma_) ∧ other.key = pair.key ∧ other.value = value := by
    have literal : (if (value ++ comma).getLast? = some ',' then (value ++ comma).dropLast
        else value ++ comma) = value := by
      rcases commas with rfl | rfl
      · rw [append_nil, if_neg legible.comma]
      · rw [if_pos (getLast?_concat), dropLast_concat]
    unfold luaPair
    dsimp only
    rw [named.text, named.parts.1, named.parts.2, separatorOf_sign blanks]
    dsimp only
    rw [behind, ended.1, literal, name_.first, legible.plain]
    exact ⟨_, _, rfl, rfl, rfl⟩
  obtain ⟨other, comma_, reads, sameKey, sameValue⟩ := again
  rw [new] at form ⊢
  have undotted : (luaDotted (pair.indent ++ (pair.key ++ (before ++ '=' ::
      (after_ ++ (value ++ comma)))))).filter (fun pair => pair.key == own ++ '.' :: key) = none := by
    cases dotted : luaDotted (pair.indent ++ (pair.key ++ (before ++ '=' ::
      (after_ ++ (value ++ comma))))) with
    | none => rfl
    | some one => exact filter_other (form.dotted one dotted ▸ not_dotted name_)
  have inside : nestedKey own path (pair.indent ++ (pair.key ++ (before ++ '=' ::
      (after_ ++ (value ++ comma))))) =
        some (other, comma_, dottedName (path.tail ++ [other.key])) := by
    unfold nestedKey
    rw [form.opens, form.closes, top, if_neg (by simp), reads]
    rfl
  unfold luaGives
  rw [undotted]
  dsimp only
  rw [inside, sameKey]
  by_cases mine : dottedName (path.tail ++ [pair.key]) = key
  · rw [if_pos mine, filter_some_pos (by simpa using mine), map_some, sameValue]
  · rw [if_neg mine, filter_some_neg (by simpa using mine)]
    rfl

/-- A line of the shape the game writes, for a key the patch names. -/
theorem nestedLine_read (legible : ∀ pair ∈ wanted.entries, LuaLegible pair.2)
    (has : wanted.get key = some value) {line : Line} (settled : chomp line = line)
    (undotted : ∀ found, dottedKey own line = some found → found.2 ≠ key) :
    (luaGives own key path (chomp (nestedLine own wanted path line)) = none ∨
      luaGives own key path (chomp (nestedLine own wanted path line)) = some value) ∧
      (((nestedKey own path line).any fun found => found.2.2 == key) = true →
        luaGives own key path (chomp (nestedLine own wanted path line)) = some value) := by
  unfold nestedLine
  split
  · rename_i none_
    rw [settled, none_]
    refine ⟨Or.inl (luaGives_quiet undotted fun found inside => ?_), by rintro ⟨⟩⟩
    rw [none_] at inside
    cases inside
  · rename_i pair comma name found
    rw [found]
    split
    · rename_i unwanted
      have other : name ≠ key := by
        rintro rfl
        rw [has] at unwanted
        cases unwanted
      rw [settled]
      refine ⟨Or.inl (luaGives_quiet undotted fun one inside => ?_), fun same => ?_⟩
      · rw [found] at inside
        obtain rfl := some.inj inside
        exact other
      · exact absurd (by simpa using same) other
    · rename_i written given
      obtain ⟨-, -, top, read, rfl⟩ := nestedKey_parts found
      rw [nested_read read (legible _ (Record.mem_of_get given)) top]
      by_cases mine : dottedName (path.tail ++ [pair.key]) = key
      · rw [mine, has] at given
        rw [if_pos mine, some.inj given]
        exact ⟨Or.inr rfl, fun _ => rfl⟩
      · rw [if_neg mine]
        exact ⟨Or.inl rfl, fun same => absurd (by simpa using same) mine⟩

/-- A rewritten line leaves the tables open that the line did. -/
theorem nestedLine_state (fits : LuaWanted own wanted) {line : Line} (settled : chomp line = line) :
    luaNext path (chomp (nestedLine own wanted path line)) = luaNext path line := by
  have strange : ∀ pair ∈ wanted.entries, own ++ '.' :: pair.1 ≠ own ++ '.' :: ['\n'] := by
    intro pair member same
    have named := (cons.inj (append_cancel_left same)).2
    have dotted := fits.keys pair member '\n' (named ▸ mem_cons_self)
    exact absurd dotted (by decide)
  exact (nestedLine_alike fits settled strange).1

theorem dottedLine_state (fits : LuaWanted own wanted) {base : Option (List Char)} {line : Line}
    (settled : chomp line = line)
    (outside : base.isSome = true → (luaModule own line).isSome = true → path = []) :
    luaNext path (chomp (dottedLine own base wanted line)) = luaNext path line := by
  have strange : ∀ pair ∈ wanted.entries, own ++ '.' :: pair.1 ≠ own ++ '.' :: ['\n'] := by
    intro pair member same
    have named := (cons.inj (append_cancel_left same)).2
    have dotted := fits.keys pair member '\n' (named ▸ mem_cons_self)
    exact absurd dotted (by decide)
  exact (dottedLine_alike fits settled strange outside).1

theorem mem_nestedKeys {front back : List Line} {line : Line}
    {found : Pair × List Char × List Char}
    (inside : nestedKey own (front.foldl luaNext path) line = some found)
    (named : found.2.2 = key) : key ∈ nestedKeys own path (front ++ line :: back) := by
  induction front generalizing path with
  | nil =>
    refine mem_append_left _ ?_
    rw [show nestedKey own path line = some found from inside]
    exact mem_singleton.mpr named.symm
  | cons first front inductionHypothesis =>
    exact mem_append_right _ (inductionHypothesis inside)

/-- Blank lines at the end of a file are read as none. -/
theorem rdropped_alike (lines : List Line) :
    ReadAlike luaNext (luaGives own key) path ((lines.rdropWhile isBlankLine).map chomp)
      (lines.map chomp) := by
  have rest : ∀ state, ReadAlike luaNext (luaGives own key) state
      ((lines.rtakeWhile isBlankLine).map chomp) [] := by
    refine fun state => readAlike_nil fun line member => ?_
    obtain ⟨written, there, rfl⟩ := List.mem_map.mp member
    exact idle_quiet (Or.inl (blank_chomp (mem_rtakeWhile_imp there)))
  have all := (ReadAlike.refl path ((lines.rdropWhile isBlankLine).map chomp)).append (rest _).symm
  rwa [append_nil, ← map_append, rdropWhile_append_rtakeWhile] at all

/-- The lines of the shape the game writes, for a key the patch names. -/
theorem nestedLines_read (fits : LuaWanted own wanted)
    (legible : ∀ pair ∈ wanted.entries, LuaLegible pair.2) (has : wanted.get key = some value)
    (path : List (List Char)) {lines : List Line}
    (fine : ∀ line ∈ lines, chomp line = line ∧
      ∀ found, dottedKey own line = some found → found.2 ≠ key) :
    Tends luaNext (luaGives own key) value path
        ((nestedLines own wanted path lines).map chomp) ∧
      (key ∈ nestedKeys own path lines →
        Gives luaNext (luaGives own key) value path
          ((nestedLines own wanted path lines).map chomp)) := by
  induction lines generalizing path with
  | nil => exact ⟨fun found => Or.inl rfl, fun member => absurd member not_mem_nil⟩
  | cons line lines inductionHypothesis =>
    obtain ⟨here, there⟩ := forall_mem_cons.mp fine
    obtain ⟨tends, gives⟩ := inductionHypothesis (luaNext path line) there
    obtain ⟨either, given⟩ := @nestedLine_read own key value wanted path legible has line here.1
      here.2
    have state : [chomp (nestedLine own wanted path line)].foldl luaNext path =
        luaNext path line := nestedLine_state fits here.1
    rw [← state] at tends gives
    unfold nestedLines nestedKeys
    rw [← state]
    refine ⟨(tends_line either).append tends, fun member => ?_⟩
    rcases mem_append.mp member with now | later
    · obtain ⟨found, read, named⟩ := map_eq_some_iff.mp (mem_toList.mp now)
      refine (gives_line (given ?_)).append_tends tends
      rw [read]
      simpa using named
    · exact @Gives.after _ _ _ _ _ _ _ [chomp (nestedLine own wanted path line)] _ (gives later)

end Lines

/-! ### The whole file -/

section Whole

variable {own key value : List Char} {wanted : Record (List Char) (List Char)}
  {entries : List Entry} {existing content : List Char}

theorem luaLiteral_ended {lines : List Line} (clean : ∀ line ∈ lines, '\n' ∉ line)
    (put : content = joinLines lines ++ ['\n'] ∨ content = closed (joinLines lines)) :
    luaLiteral content own key =
      lastGiven luaNext (luaGives own key) [] (lines.map chomp) := by
  unfold luaLiteral
  rcases put with rfl | rfl
  · exact lastGiven_ended clean luaGives_nil fun _ => rfl
  · exact lastGiven_closed clean luaGives_nil fun _ => rfl

/-- A file made anew holds the literal. -/
theorem fresh_gives (fits : LuaWanted own wanted)
    (legible : ∀ pair ∈ wanted.entries, LuaLegible pair.2) (has : wanted.get key = some value)
    (module_ : List Char) :
    Gives luaNext (luaGives own key) value [] ((luaFresh own module_ wanted).map chomp) := by
  have comments : ∀ line ∈ freshComments, luaIdle (chomp line) = true := by
    decide +kernel
  have quiet : ReadAlike luaNext (luaGives own key) [] (freshComments.map chomp) [] := by
    refine readAlike_nil fun line member => ?_
    obtain ⟨comment, there, rfl⟩ := List.mem_map.mp member
    exact idle_quiet (idle_of_luaIdle (comments comment there))
  have start := @luaBaseLine_quiet own own key [] module_ fits.table no_blanks
  rw [nil_append] at start
  have added := (@luaAdded_read own key value wanted [] fits legible has wanted.entries
    fun _ member => member).2 (Record.mem_of_get has)
  unfold luaFresh
  rw [map_append, map_cons]
  refine Gives.congr (quiet.append ((readAlike_nothing start.1 start.2).append (.refl _ _))) ?_
  exact added

/-- A file of the shape the panel writes holds the literal. -/
theorem dotted_gives (fits : LuaWanted own wanted)
    (legible : ∀ pair ∈ wanted.entries, LuaLegible pair.2) (has : wanted.get key = some value)
    {base : Option (List Char)} (settled : Settled existing)
    (outside : base.isSome = true → Outside own existing)
    (alone : key ∉ nestedKeys own [] (splitLines existing)) :
    Gives luaNext (luaGives own key) value []
      ((((splitLines existing).map (dottedLine own base wanted)).rdropWhile isBlankLine ++
        (wanted.entries.filter fun entry => !(splitLines existing).any fun line =>
          !((luaBase line).any fun found => found.2.1 == own) &&
            (dottedKey own line).any fun found => found.2 == entry.1).map
          (luaDottedLine own)).map chomp) := by
  have nested : ∀ front line back, splitLines existing = front ++ line :: back →
      ∀ found, nestedKey own (front.foldl luaNext []) line = some found → found.2.2 ≠ key := by
    intro front line back parts found inside named
    refine alone ?_
    rw [parts]
    exact mem_nestedKeys inside named
  have settled_ : ∀ front line back, splitLines existing = front ++ line :: back →
      chomp line = line := by
    intro front line back parts
    refine settled line ?_
    rw [parts]
    exact mem_append_right _ mem_cons_self
  have stays : ∀ front line back, splitLines existing = front ++ line :: back →
      luaNext (front.foldl luaNext []) (chomp (dottedLine own base wanted line)) =
        luaNext (front.foldl luaNext []) line := fun front line back parts =>
    dottedLine_state fits (settled_ front line back parts) fun isBase starts =>
      outside isBase front line back parts starts
  have read := fun front line back parts => @dottedLine_read own key value wanted
    (front.foldl luaNext []) fits legible has base line (settled_ front line back parts)
    (fun isBase starts => outside isBase front line back parts starts)
    (nested front line back parts)
  have alike := @rdropped_alike own key [] ((splitLines existing).map (dottedLine own base wanted))
  rw [List.map_map] at alike
  rw [map_append]
  refine Gives.congr (alike.append (.refl _ _)) ?_
  by_cases seen : (splitLines existing).any (fun line =>
      !((luaBase line).any fun found => found.2.1 == own) &&
        (dottedKey own line).any fun found => found.2 == key) = true
  · obtain ⟨line, member, here⟩ := List.any_eq_true.mp seen
    obtain ⟨front, back, parts⟩ := append_of_mem member
    obtain ⟨unbased, keyed⟩ := Bool.and_eq_true_iff.mp here
    refine Gives.append_tends (gives_map_along [] stays
      (fun front line back parts => (read front line back parts).1) parts
      ((read front line back parts).2 (by simpa using unbased) keyed)) ?_
    exact (luaAdded_read fits legible has _ fun pair inside => (mem_filter.mp inside).1).1
  · refine Gives.after ((luaAdded_read fits legible has _ fun pair inside =>
      (mem_filter.mp inside).1).2 (mem_filter.mpr ⟨Record.mem_of_get has, ?_⟩))
    simpa using seen

theorem strange_other (fits : LuaWanted own wanted) : OtherNames own wanted own ['\n'] := by
  intro _ pair member same
  have named := (cons.inj (append_cancel_left same)).2
  have dotted := fits.keys pair member '\n' (named ▸ mem_cons_self)
  exact absurd dotted (by decide)

/-- A key that the patch names holds the patch's literal. -/
theorem luaLiteral_named (orderly : LuaEntries entries)
    (legible : ∀ entry ∈ entries, entry.key ≠ [] → LuaLegible entry.value)
    (settled : Settled existing)
    (outside : ∀ entry ∈ entries, entry.key = [] → Outside entry.section_ existing)
    (oneShape : OneShape own key existing)
    (tables : ∀ entry ∈ entries, entry.section_ = own) {file : String}
    (merged : mergeLua existing entries file = .ok content)
    (has : (luaKeys entries).get key = some value) : luaLiteral content own key = some value := by
  obtain ⟨table, all, fits, clean, forms⟩ := mergeLua_cases orderly merged
  obtain ⟨entry, inside, -, -⟩ := wantedOf_get has
  have same : table = own :=
    (all entry (mem_filter.mp inside).1).symm.trans (tables entry (mem_filter.mp inside).1)
  subst same
  have literals : ∀ pair ∈ (luaKeys entries).entries, LuaLegible pair.2 := by
    intro pair member
    obtain ⟨one, there, keyed, -, valued⟩ := entry_of_luaKeys member
    exact valued ▸ legible one there keyed
  have strange := strange_other fits
  unfold OneShape at oneShape
  cases forms with
  | fresh module_ idle start =>
    rw [luaLiteral_ended (fresh_same fits strange (clean module_ start) nofun idle).clean (.inl rfl)]
    exact (fresh_gives fits literals has module_).lastGiven_eq
  | dotted starts =>
    rw [if_pos starts] at oneShape
    have outside_ : (luaStart entries).isSome = true → Outside table existing := by
      intro isBase
      obtain ⟨text, start⟩ := isSome_iff_exists.mp isBase
      obtain ⟨entry, there, keyless, -⟩ := entry_of_luaStart start
      exact all entry there ▸ outside entry there keyless
    rw [luaLiteral_ended (dotted_same fits strange clean nofun settled outside_ _).clean (.inl rfl)]
    exact (dotted_gives fits literals has settled outside_ oneShape).lastGiven_eq
  | nested none_ baseless found =>
    rw [if_neg none_] at oneShape
    have named : key ∈ (luaKeys entries).keys := by
      rw [Record.mem_keys_iff, Record.has, has]
      rfl
    rw [luaLiteral_ended (nestedLines_same fits strange [] (baseless_of_none settled none_)).1
      (.inr rfl)]
    exact ((nestedLines_read fits literals has [] fun line member =>
      ⟨settled line member, oneShape line member⟩).2 (found key named)).lastGiven_eq

/-! ### The start of a table -/

/-- When a file starts a table from a module, it starts this one so. -/
def Started (table existing : List Char) : Prop :=
  (splitLines existing).any (fun line => (luaBase line).isSome) = true →
    (splitLines existing).any (fun line => (luaModule table line).isSome) = true

theorem luaModule_built {indent module_ : List Char} (fits : LuaName own)
    (spaces : ∀ char ∈ indent, isSpace char = true) (quotes : '"' ∉ module_) :
    luaModule own (chomp (indent ++ luaBaseLine own module_)) = some module_ := by
  have all : ∀ char ∈ module_, (char != '"') = true := by
    intro char member
    rw [bne_iff_ne]
    rintro rfl
    exact quotes member
  have named := @namedLine_signed indent own [' '] (" require \"".toList ++ module_ ++ ['"']) spaces
    fits (by exact List.all_eq_true.mp rfl)
  have value_ : (" require \"".toList ++ module_ ++ ['"']).dropWhile isSpace =
      "require".toList ++ (' ' :: '"' :: (module_ ++ ['"'])) := by
    rw [append_assoc]
    rfl
  have behind : after "require".toList ("require".toList ++ (' ' :: '"' :: (module_ ++ ['"']))) =
      some (' ' :: '"' :: (module_ ++ ['"'])) := by
    unfold after
    rw [if_pos (List.isPrefixOf_iff_prefix.mpr (prefix_append _ _)), drop_left]
  have quoted : (skip '(' ((' ' :: '"' :: (module_ ++ ['"'])).dropWhile isSpace)).dropWhile isSpace =
      '"' :: (module_ ++ ['"']) := rfl
  have read : luaBase (indent ++ (own ++ ([' '] ++ '=' ::
      (" require \"".toList ++ module_ ++ ['"'])))) = some (indent, own, module_) := by
    unfold luaBase
    dsimp only
    rw [named.text, named.indent_, named.parts.1, named.parts.2, separatorOf_sign (by exact List.all_eq_true.mp rfl)]
    dsimp only
    rw [value_, behind]
    dsimp only
    rw [quoted]
    split
    · rename_i text same
      obtain ⟨-, rfl⟩ := cons.inj same
      rw [takeWhile_append_of_pos all, dropWhile_append_of_pos all,
        takeWhile_cons_of_neg (by decide), dropWhile_cons_of_neg (by decide),
        append_nil]
      dsimp only
      rw [fits.first]
      rfl
    · rename_i other
      exact absurd rfl (other _)
  rw [luaBaseLine_eq]
  unfold luaModule
  rw [read, filter_some_pos (by simp)]
  rfl

theorem findSome_of_all {lines : List Line} {found : Line → Option (List Char)}
    (each : ∀ line ∈ lines, found line = none ∨ found line = some value)
    (some_ : ∃ line ∈ lines, found line = some value) : lines.findSome? found = some value := by
  induction lines with
  | nil =>
    obtain ⟨line, member, -⟩ := some_
    exact absurd member not_mem_nil
  | cons line lines inductionHypothesis =>
    obtain ⟨here, there⟩ := forall_mem_cons.mp each
    rw [findSome?_cons]
    rcases here with none_ | given
    · rw [none_]
      refine inductionHypothesis there ?_
      obtain ⟨one, member, given⟩ := some_
      rcases mem_cons.mp member with rfl | later
      · rw [none_] at given
        cases given
      · exact ⟨one, later, given⟩
    · rw [given]

/-- A line of the shape the panel writes, when the patch has a module for the table. -/
theorem dottedLine_start (fits : LuaWanted own wanted) {module_ : List Char} {line : Line}
    (settled : chomp line = line) (quotes : '"' ∉ module_) :
    luaModule own (chomp (dottedLine own (some module_) wanted line)) =
      if (luaModule own line).isSome then some module_ else none := by
  unfold dottedLine
  split
  · rename_i indent name old found
    obtain ⟨before, rest, -, spaces, -⟩ := luaBase_makes (filter_eq_some_iff.mp found).1
    have starts : (luaModule own line).isSome = true := by
      unfold luaModule
      rw [found]
      rfl
    rw [if_pos starts]
    exact luaModule_built fits.table spaces quotes
  · rename_i unbased
    have none_ : luaModule own line = none := by
      unfold luaModule
      rw [unbased]
      rfl
    rw [none_, if_neg (by simp)]
    split
    · rw [settled, none_]
    · rename_i pair name found
      split
      · rw [settled, none_]
      · rename_i value has
        obtain ⟨before, after_, -, -, -, new⟩ := dotted_rewritten value found
        have spaces := (luaDotted_makes (dottedKey_parts found).1).indent
        rw [new, append_assoc own, cons_append]
        exact luaModule_none (dottedForm spaces fits.table).base

theorem rdropped_module (lines : List Line) :
    ((lines.rdropWhile isBlankLine).map chomp).findSome? (luaModule own) =
      (lines.map chomp).findSome? (luaModule own) := by
  have rest : ((lines.rtakeWhile isBlankLine).map chomp).findSome? (luaModule own) = none := by
    refine findSome_none fun line member => ?_
    obtain ⟨written, there, rfl⟩ := List.mem_map.mp member
    exact luaModule_none (idleForm (Or.inl (blank_chomp (mem_rtakeWhile_imp there)))).1.base
  have whole := rdropWhile_append_rtakeWhile (p := isBlankLine) (l := lines)
  conv_rhs => rw [← whole, map_append, findSome?_append, rest, or_none]

/-- A table whose start the patch names starts from the patch's module. -/
theorem luaModule_named (orderly : LuaEntries entries) (settled : Settled existing)
    {base : Entry} (found : entries.find? (fun entry => entry.key.isEmpty) = some base)
    (quotes : '"' ∉ base.value) (started : Started base.section_ existing) {file : String}
    (outside : Outside base.section_ existing)
    (merged : mergeLua existing entries file = .ok content) :
    readLuaValue content base.section_ [] = some base.value := by
  obtain ⟨table, all, fits, clean, forms⟩ := mergeLua_cases orderly merged
  have strange := strange_other fits
  rw [all base (mem_of_find?_eq_some found)] at started outside ⊢
  have is : luaStart entries = some base.value := by rw [luaStart, found, Option.map_some]
  rw [is] at clean forms
  have put : ∀ lines : List Line, (∀ line ∈ lines, '\n' ∉ line) →
      (lines.map chomp).findSome? (luaModule table) = some base.value →
      readLuaValue (joinLines lines ++ ['\n']) table [] = some base.value := by
    intro lines fine given
    obtain ⟨rest, nothing, parts⟩ := splitLines_ended_rest fine
    unfold readLuaValue
    rw [isEmpty_nil, if_pos rfl, parts, findSome_rest nothing, given]
  cases forms with
  | fresh module_ idle start =>
    obtain rfl := some.inj start
    refine put _ (fresh_same fits strange (clean _ rfl) nofun idle).clean ?_
    have comments : ∀ line ∈ freshComments, luaIdle (chomp line) = true := by
      decide +kernel
    have begins := @luaModule_built table [] base.value fits.table no_blanks quotes
    rw [nil_append] at begins
    unfold luaFresh
    rw [map_append, findSome?_append, findSome_none, none_or, map_cons, findSome?_cons, begins]
    intro line inside
    obtain ⟨comment, there, rfl⟩ := List.mem_map.mp inside
    exact luaModule_none (idleForm (idle_of_luaIdle (comments comment there))).1.base
  | dotted starts =>
    refine put _ (dotted_same fits strange clean nofun settled (fun _ => outside) _).clean ?_
    have begins : ∀ line ∈ splitLines existing,
        luaModule table (chomp (dottedLine table (some base.value) (luaKeys entries) line)) =
          if (luaModule table line).isSome then some base.value else none :=
      fun line inside => dottedLine_start fits (settled line inside) quotes
    have whole : (((splitLines existing).map (dottedLine table (some base.value)
        (luaKeys entries))).map chomp).findSome? (luaModule table) = some base.value := by
      rw [List.map_map, findSome?_map]
      refine findSome_of_all (fun line inside => ?_) ?_
      · rw [Function.comp, Function.comp, begins line inside]
        split
        · exact Or.inr rfl
        · exact Or.inl rfl
      · obtain ⟨line, inside, here⟩ := List.any_eq_true.mp (started starts)
        refine ⟨line, inside, ?_⟩
        rw [Function.comp, Function.comp, begins line inside, if_pos here]
    rw [map_append, findSome?_append, rdropped_module, whole]
    rfl
  | nested none_ baseless found => cases baseless

end Whole

end Geeboard.Games
