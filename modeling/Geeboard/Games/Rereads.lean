/-
This file is about lines that a merge has written and a reader reads again.

A merge finds a key by the pattern of its lines, and what it wrote, a line it changed or
one it added, is read as an assignment of the key it was written for. The value it is read
with is the one that was written, without the blanks it begins with, as long as that is of
one line; no line of the file is broken, whatever the value is, when it holds no break.
-/

import Geeboard.Games.LineForms

namespace Geeboard.Games

open Text List Option

/-! ### Files that are read -/

/-- A key that a properties file can have. -/
def PropertyKey (key : List Char) : Prop := key ≠ [] ∧ ∀ char ∈ key, isPropertyChar char = true

/-- No line of a file ends in a carriage return of its own. -/
def Settled (existing : List Char) : Prop := ∀ line ∈ splitLines existing, chomp line = line

theorem any_head_of_ne_nil {key : List Char} (some_ : key ≠ []) :
    (key.head?.any fun _ => true) = true := by
  obtain ⟨char, rest, rfl⟩ := exists_cons_of_ne_nil some_
  rfl

theorem clean_of_keys {isKey : Char → Bool} (class_ : KeyClass isKey) {key : List Char}
    (keys : ∀ char ∈ key, isKey char = true) : '\n' ∉ key := by
  intro member
  have space := class_.space _ (keys _ member)
  revert space
  decide

/-- What is read of lines put together and closed, when nothing is read of an empty line. -/
theorem lastGiven_closed {State Value : Type} {next : State → Line → State}
    {gives : State → Line → Option Value} {start : State} {lines : List Line}
    (clean : ∀ line ∈ lines, '\n' ∉ line) (empty : ∀ state, gives state [] = none)
    (stays : ∀ state, next state [] = state) :
    lastGiven next gives start (splitLines (closed (joinLines lines))) =
      lastGiven next gives start (lines.map chomp) := by
  obtain ⟨rest, nothing, same⟩ := splitLines_closed clean
  rw [same]
  refine lastGiven_append_silent (silent_of_alike (readAlike_nil fun line member => ?_))
  rw [nothing line member]
  exact ⟨stays _, empty _⟩

theorem lastGiven_ended {State Value : Type} {next : State → Line → State}
    {gives : State → Line → Option Value} {start : State} {lines : List Line}
    (clean : ∀ line ∈ lines, '\n' ∉ line) (empty : ∀ state, gives state [] = none)
    (stays : ∀ state, next state [] = state) :
    lastGiven next gives start (splitLines (joinLines lines ++ ['\n'])) =
      lastGiven next gives start (lines.map chomp) := by
  obtain ⟨rest, nothing, same⟩ := splitLines_ended_rest clean
  rw [same]
  refine lastGiven_append_silent (silent_of_alike (readAlike_nil fun line member => ?_))
  rw [nothing line member]
  exact ⟨stays _, empty _⟩

/-- A file none of whose lines ends in a carriage return of its own is read as without them. -/
theorem lastGiven_settled {State Value : Type} {next : State → Line → State}
    {gives : State → Line → Option Value} {start : State} {existing : List Char}
    (settled : Settled existing) (stays : ∀ state line, next state (chomp line) = next state line) :
    lastGiven next gives start (splitLines existing) =
      lastGiven next (fun state line => gives state (chomp line)) start (splitLines existing) := by
  have same : (splitLines existing).map chomp = splitLines existing :=
    (map_congr_left settled).trans (map_id' _)
  rw [← lastGiven_changed chomp stays, same]

/-! ### What an entry asks for -/

section Lookups

variable {language : Language} {entries : List Entry}

theorem mem_wantedOf {name value : List Char}
    (member : (name, value) ∈ (wantedOf entries).entries) :
    ∃ entry ∈ entries, entry.key = name ∧ entry.value = value := by
  obtain ⟨entry, there, same⟩ := List.mem_map.mp (Record.mem_ofEntries member)
  exact ⟨entry, there, congrArg Prod.fst same, congrArg Prod.snd same⟩

theorem wantedOf_get {name value : List Char} (has : (wantedOf entries).get name = some value) :
    ∃ entry ∈ entries, entry.key = name ∧ entry.value = value :=
  mem_wantedOf (Record.mem_of_get has)

theorem mem_cvarsWanted {lower : List Char} {entry : Entry}
    (member : (lower, entry) ∈ (cvarsWanted language entries).entries) :
    entry ∈ entries ∧ language.lowerCase entry.key = lower := by
  obtain ⟨one, there, same⟩ := List.mem_map.mp (Record.mem_ofEntries member)
  obtain ⟨rfl, rfl⟩ := Prod.mk.inj same
  exact ⟨there, rfl⟩

theorem wantedOf_find (entries : List Entry) (key : List Char) :
    (wantedOf entries).get key =
      (entries.reverse.find? fun entry => entry.key == key).map Entry.value :=
  Record.get_ofEntries_map entries Entry.key Entry.value fun _ => beq_iff_eq

theorem cvarsWanted_find (entries : List Entry) (lower : List Char) :
    (cvarsWanted language entries).get lower =
      entries.reverse.find? fun entry => language.lowerCase entry.key == lower :=
  (Record.get_ofEntries_map entries (fun entry => language.lowerCase entry.key) id
    fun _ => beq_iff_eq).trans (congrFun Option.map_id _)

theorem iniWanted_find (entries : List Entry) (section_ key : List Char) :
    ((iniWanted entries).get section_).bind (fun keys => keys.get key) =
      (entries.reverse.find? fun entry => entry.section_ == section_ && entry.key == key).map
        Entry.value := by
  induction entries using List.reverseRecOn with
  | nil => rfl
  | append_singleton entries entry inductionHypothesis =>
    have last : iniWanted (entries ++ [entry]) = (iniWanted entries).set entry.section_
        ((((iniWanted entries).get entry.section_).getD .empty).set entry.key entry.value) := by
      unfold iniWanted
      rw [foldl_append]
      rfl
    rw [last, Record.get_set, reverse_append, reverse_singleton, singleton_append,
      find?_cons]
    by_cases block : entry.section_ = section_
    · rw [if_pos block, bind_some, Record.get_set]
      by_cases mine : entry.key = key
      · rw [if_pos mine, block, mine, beq_self_eq_true, beq_self_eq_true]
        rfl
      · rw [if_neg mine, beq_eq_false_iff_ne.mpr mine, Bool.and_false, ← inductionHypothesis, block]
        cases (iniWanted entries).get section_ with
        | none => rfl
        | some keys => rfl
    · rw [if_neg block, beq_eq_false_iff_ne.mpr block, Bool.false_and]
      exact inductionHypothesis

end Lookups

/-! ### Values that are taken back -/

/-- A value that its format's reader takes back: of one line, as the language counts lines, and
without a blank in front. -/
structure Legible (value : List Char) : Prop where
  plain : value.all isPlain = true
  solid : value.head?.all (fun char => !isSpace char) = true

theorem clean_of_plain {value : List Char} (plain : value.all isPlain = true) : '\n' ∉ value :=
  fun inside => absurd (List.all_eq_true.mp plain _ inside) (by decide)

theorem dropWhile_solid {value : List Char}
    (solid : value.head?.all (fun char => !isSpace char) = true) :
    value.dropWhile isSpace = value := by
  cases value with
  | nil => rfl
  | cons char rest => exact dropWhile_cons_of_neg (by simpa using solid)

theorem chomp_plain {value : List Char} (plain : value.all isPlain = true) : chomp value = value :=
  chomp_of_plain fun member => absurd (List.all_eq_true.mp plain _ member) (by decide)

theorem dropWhile_chomp {blanks : List Char} (spaces : ∀ char ∈ blanks, isSpace char = true)
    (value : List Char) :
    (chomp (blanks ++ value)).dropWhile isSpace = (chomp value).dropWhile isSpace := by
  by_cases some_ : value = []
  · rw [some_, append_nil, show (chomp []).dropWhile isSpace = [] from rfl]
    exact dropWhile_eq_nil_iff.mpr fun char member => spaces char (mem_of_mem_chomp member)
  · rw [chomp_append blanks some_, dropWhile_append_of_pos spaces]

/-- What stands behind a sign is the value that was put there. -/
theorem dropWhile_chomp_legible {blanks value : List Char}
    (spaces : ∀ char ∈ blanks, isSpace char = true) (legible : Legible value) :
    (chomp (blanks ++ value)).dropWhile isSpace = value := by
  rw [dropWhile_chomp spaces, chomp_plain legible.plain, dropWhile_solid legible.solid]

theorem trimmed_dropWhile (text : List Char) : trimmed (text.dropWhile isSpace) = trimmed text := by
  unfold trimmed
  rw [dropWhile_idempotent]

theorem filter_other {key : List Char} {pair : Pair} (different : pair.key ≠ key) :
    ((some pair).filter fun pair => pair.key == key) = none :=
  filter_some_neg (by simpa using different)

/-- What a line assigns to a key, as it stands there. -/
def rawOf (key : List Char) (pair : Option Pair) : Option (List Char) :=
  (pair.filter fun pair => pair.key == key).map Pair.value

theorem rawOf_named {key : List Char} {pair : Pair} (named : pair.key = key) :
    rawOf key (some pair) = some pair.value := by
  unfold rawOf
  rw [filter_some_pos (by simpa using named)]
  rfl

theorem rawOf_other {key : List Char} {pair : Pair} (other : pair.key ≠ key) :
    rawOf key (some pair) = none := by
  unfold rawOf
  rw [filter_other other]
  rfl

theorem quoted_append (front : List Char) (value : List Char) :
    chomp (front ++ '"' :: value ++ ['"']) = front ++ '"' :: value ++ ['"'] := by
  rw [chomp_append_cons _ (by decide)]
  rfl

/-! ### Lines that are read again -/

/-- The line of an assignment with another value. -/
def Pair.rewritten (pair : Pair) (value : List Char) : Line :=
  pair.indent ++ pair.key ++ pair.separator ++ value

theorem rewritten_added (key value other : List Char) :
    (⟨[], key, ['='], other⟩ : Pair).rewritten value = assignment (key, value) := by
  unfold Pair.rewritten assignment
  rw [nil_append, append_assoc]
  rfl

/-- A line is read as an assignment of a value to a key, without the blanks the value begins with,
or as none where a value is of more than one line. -/
def Rereads (parse : Line → Option Pair) (line : Line) (key value : List Char) : Prop :=
  ∃ indent separator, parse (chomp line) =
    if ((chomp value).dropWhile isSpace).all isPlain then
      some ⟨indent, key, separator, (chomp value).dropWhile isSpace⟩
    else none

section Rereads

variable {parse : Line → Option Pair} {line : Line} {name key value : List Char}

theorem Rereads.other (rereads : Rereads parse line name value) (different : name ≠ key) :
    rawOf key (parse (chomp line)) = none := by
  obtain ⟨indent, separator, read⟩ := rereads
  rw [read]
  split
  · exact rawOf_other different
  · rfl

theorem Rereads.plain (rereads : Rereads parse line name value) (plain : value.all isPlain = true) :
    rawOf key (parse (chomp line)) =
      if name = key then some (value.dropWhile isSpace) else none := by
  obtain ⟨indent, separator, read⟩ := rereads
  have rest : (value.dropWhile isSpace).all isPlain = true :=
    List.all_eq_true.mpr fun char inside =>
      List.all_eq_true.mp plain char (dropWhile_subset _ inside)
  rw [read, chomp_plain plain, if_pos rest]
  split
  · rename_i same
    exact rawOf_named same
  · rename_i different
    exact rawOf_other different

end Rereads

/-- A line whose value was replaced. -/
theorem pairOf_rewritten {isFirst isKey : Char → Bool} (class_ : KeyClass isKey) {line : Line}
    {pair : Pair} (read : pairOf isFirst isKey line = some pair) (value : List Char) :
    Rereads (pairOf isFirst isKey) (pair.rewritten value) pair.key value := by
  have makes := pairOf_makes read
  obtain ⟨before, after, blanks, more, -, same⟩ := chomp_rewritten makes value
  refine ⟨pair.indent, before ++ '=' :: (chomp (after ++ value)).takeWhile isSpace, ?_⟩
  unfold Pair.rewritten
  rw [same, pairOf_built class_ makes.indent makes.key makes.first blanks,
    dropWhile_chomp more value]

/-- A line that was added. -/
theorem pairOf_added {isFirst isKey : Char → Bool} (class_ : KeyClass isKey) {key : List Char}
    (keys : ∀ char ∈ key, isKey char = true) (first : key.head?.any isFirst = true)
    (value : List Char) : Rereads (pairOf isFirst isKey) (assignment (key, value)) key value := by
  have nothing : ∀ char ∈ ([] : List Char), isSpace char = true := fun _ member =>
    absurd member not_mem_nil
  have bare : pairOf isFirst isKey (assignment (key, [])) = some ⟨[], key, ['='], []⟩ :=
    @pairOf_built isFirst isKey class_ [] key [] [] nothing keys first nothing
  have rewritten := pairOf_rewritten class_ bare value
  rwa [rewritten_added] at rewritten

theorem iniPair_rewritten {line : Line} {pair : Pair} (read : iniPair line = some pair)
    (fits : IniName pair.key) (value : List Char) :
    Rereads iniPair (pair.rewritten value) pair.key value := by
  obtain ⟨-, indent, before, after, same, blanks, more⟩ := iniPair_makes read
  refine ⟨pair.indent, before ++ '=' :: (chomp (after ++ value)).takeWhile isSpace, ?_⟩
  have built : chomp (pair.rewritten value) =
      pair.indent ++ (pair.key ++ (before ++ '=' :: chomp (after ++ value))) := by
    unfold Pair.rewritten
    rw [same, append_assoc, append_assoc, append_assoc, cons_append, chomp_built]
  rw [built, iniPair_name indent fits blanks, dropWhile_chomp more value]

theorem iniPair_added {key : List Char} (fits : IniName key) (value : List Char) :
    Rereads iniPair (assignment (key, value)) key value := by
  have nothing : ∀ char ∈ ([] : List Char), isSpace char = true := fun _ member =>
    absurd member not_mem_nil
  have bare : iniPair (assignment (key, [])) = some ⟨[], key, ['='], []⟩ :=
    @iniPair_name [] key [] [] nothing fits nothing
  have rewritten := iniPair_rewritten bare fits value
  rwa [rewritten_added] at rewritten

/-- A line with another value in it breaks no line when the value does not. -/
theorem clean_rewritten {line : Line} {pair : Pair} {value : List Char} (clean : '\n' ∉ line)
    (parts : line = pair.indent ++ (pair.key ++ (pair.separator ++ pair.value)))
    (fits : '\n' ∉ value) : '\n' ∉ pair.rewritten value := by
  rw [parts] at clean
  unfold Pair.rewritten
  simp only [mem_append, not_or] at clean ⊢
  exact ⟨⟨⟨clean.1, clean.2.1⟩, clean.2.2.1⟩, fits⟩

/-! ### Properties -/

section Properties

variable {wanted : Record (List Char) (List Char)} {lines : List Line}

/-- Whether a line assigns a key. -/
def assigns (key : List Char) (line : Line) : Bool :=
  (keyLine line).any fun pair => pair.key == key

theorem assigns_iff {key : List Char} {line : Line} :
    assigns key line = true ↔ ∃ pair, keyLine line = some pair ∧ pair.key = key := by
  unfold assigns
  cases keyLine line with
  | none => exact ⟨fun never => Bool.noConfusion never, fun ⟨_, none_, _⟩ => nomatch none_⟩
  | some pair =>
    rw [any_some, beq_iff_eq]
    exact ⟨fun same => ⟨pair, rfl, same⟩, fun ⟨_, found, same⟩ => some.inj found ▸ same⟩

theorem propertyLine_cases (wanted : Record (List Char) (List Char)) (line : Line) :
    (∃ pair value, keyLine line = some pair ∧ wanted.get pair.key = some value ∧
      propertyLine wanted line = pair.rewritten value) ∨
      ((∀ pair, keyLine line = some pair → wanted.get pair.key = none) ∧
        propertyLine wanted line = line) := by
  unfold propertyLine
  cases read : keyLine line with
  | none => exact Or.inr ⟨(fun pair same => nomatch same), rfl⟩
  | some pair =>
    cases asked : wanted.get pair.key with
    | some value => exact Or.inl ⟨pair, value, rfl, asked, by simp only [asked]; rfl⟩
    | none =>
      refine Or.inr ⟨fun other same => ?_, by simp only [asked]⟩
      rw [← some.inj same, asked]

/-- The lines a merge into a properties file leaves. -/
def propertyLines (wanted : Record (List Char) (List Char)) (lines : List Line) : List Line :=
  lines.map (propertyLine wanted) ++
    (wanted.entries.filter fun entry => !lines.any (assigns entry.1)).map assignment

end Properties

/-! ### Cvars -/

section Cvars

variable {language : Language} {wanted : Record (List Char) Entry} {lines : List Line}

/-- Whether a line sets a cvar of this name, in lower case. -/
def sets (language : Language) (name : List Char) (line : Line) : Bool :=
  (cvarLine line).any fun pair => language.lowerCase pair.key == name

theorem sets_iff {name : List Char} {line : Line} : sets language name line = true ↔
    ∃ pair, cvarLine line = some pair ∧ language.lowerCase pair.key = name := by
  unfold sets
  cases cvarLine line with
  | none => exact ⟨fun never => Bool.noConfusion never, fun ⟨_, none_, _⟩ => nomatch none_⟩
  | some pair =>
    rw [any_some, beq_iff_eq]
    exact ⟨fun same => ⟨pair, rfl, same⟩, fun ⟨_, found, same⟩ => some.inj found ▸ same⟩

theorem cvarLines_cases (language : Language) (wanted : Record (List Char) Entry) (line : Line) :
    (∃ pair entry, cvarLine line = some pair ∧
      wanted.get (language.lowerCase pair.key) = some entry ∧
      ((entry.remove = true ∧ cvarLines language wanted line = []) ∨
        (entry.remove = false ∧ cvarLines language wanted line =
          [pair.rewritten ('"' :: entry.value ++ ['"'])]))) ∨
      ((∀ pair, cvarLine line = some pair → wanted.get (language.lowerCase pair.key) = none) ∧
        cvarLines language wanted line = [line]) := by
  unfold cvarLines
  cases read : cvarLine line with
  | none => exact Or.inr ⟨(fun pair same => nomatch same), rfl⟩
  | some pair =>
    cases asked : wanted.get (language.lowerCase pair.key) with
    | some entry =>
      refine Or.inl ⟨pair, entry, rfl, asked, ?_⟩
      simp only [asked]
      cases entry.remove with
      | true => exact Or.inl ⟨rfl, rfl⟩
      | false =>
        refine Or.inr ⟨rfl, ?_⟩
        unfold Pair.rewritten
        rw [append_assoc (pair.indent ++ pair.key ++ pair.separator)]
        rfl
    | none =>
      refine Or.inr ⟨fun other same => ?_, by simp only [asked]⟩
      rw [← some.inj same, asked]

end Cvars

end Geeboard.Games
