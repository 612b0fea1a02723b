/-
This file is about what the line merges come to: their results are the file's lines,
edited as the patch asks and no further, and a reader finds what the patch asked for.

Two things happen that a plan of lines for keys alone would not have. A section that
the file does not have is begun with a line of its own, behind an empty one where
the line before is not; and a quote ends the value of a cvar for its reader, so a
value with one is not read back.
-/

import Geeboard.Games.NamedSections

namespace Geeboard.Games

open Text List Option

/-! ### What is read of the result -/

section Wanted

variable {language : Language} {entries : List Entry} {existing : List Char} {entry : Entry}

/-- A wanted key is read from a merged properties file as the entry that holds for it says. -/
theorem readProperty_wanted (wish : PropertyWish entries) (settled : Settled existing)
    {key : List Char} (last : lastEntry entries (fun entry => entry.key == key) = some entry) :
    readProperty (mergeProperties existing entries) key = some (trimmed entry.value) := by
  have asked : (wantedOf entries).get key = some entry.value := by
    rw [wantedOf_find]
    exact congrArg (Option.map Entry.value) last
  rw [readProperty_eq, rawProperty_named wish.orderly (fun entry inside => (wish entry inside).2)
    settled asked, map_some, trimmed_dropWhile]

/-- A wanted key of a section is read from a merged INI file as the entry that holds for it says. -/
theorem readIniValue_wanted (wish : IniWish entries) (settled : Settled existing)
    {key : List Char × List Char} (wanted : iniEntry entries key = some entry) :
    readIniValue (mergeIni existing entries) key.1 key.2 = some (trimmed entry.value) := by
  rw [readIniValue_eq, rawIniValue_named wish.orderly wish.values settled wanted, map_some,
    trimmed_dropWhile]

/-- A wanted cvar is read from a merged `.cfg` as the entry that holds for it says. -/
theorem readCvar_wanted (wish : CvarWish entries) (settled : Settled existing) {name : List Char}
    (last : lastEntry entries (fun entry =>
      language.lowerCase entry.key == language.lowerCase name) = some entry) :
    readCvar language (mergeCvars language existing entries) name =
      if entry.remove then none else some entry.value := by
  refine readCvar_named (fun own inside kept => ?_) ?_ (CvarWish.orderly wish) settled
  · exact ⟨(wish own inside).2.2.1, (wish own inside).2.2.2 kept⟩
  · rw [cvarsWanted_find]
    exact last

theorem ini_put_ne_nil (place : List Char) (line : Line) : (iniPlan entries).put place line ≠ [] := by
  unfold Plan.put
  cases found : ((iniPlan entries).assigns place line).bind
      fun key => (iniPlan entries).changed key line with
  | none => exact cons_ne_nil _ _
  | some put =>
    obtain ⟨key, -, changed⟩ := bind_eq_some_iff.mp found
    obtain ⟨pair, -, made⟩ := bind_eq_some_iff.mp changed
    obtain ⟨entry, -, rfl⟩ := map_eq_some_iff.mp made
    exact cons_ne_nil _ _

end Wanted

/-! ### The three merges -/

/-- A text of these lines, each ended, with nothing or an empty line behind them. -/
def HasLines (content : List Char) (lines : List Line) : Prop :=
  content.getLast? = some '\n' ∧ (feeds content = lines ∨ feeds content = lines ++ [[]])

theorem hasLines_closed {lines : List Line} (some_ : lines ≠ [])
    (clean : ∀ line ∈ lines, '\n' ∉ line) : HasLines (closed (joinLines lines)) lines :=
  ⟨getLast_closed _, feeds_closed some_ clean⟩

theorem hasLines_ended {lines : List Line} (clean : ∀ line ∈ lines, '\n' ∉ line) :
    HasLines (joinLines lines ++ ['\n']) (if lines = [] then [[]] else lines) := by
  refine ⟨getLast?_concat, Or.inr ?_⟩
  by_cases empty : lines = []
  · rw [empty]
    rfl
  · rw [if_neg empty, feeds_ended empty clean]

/-- What each line merge does, for keys and sections that lines of its format can have and values
of a single line. The lines that come out are those of an edit that fulfils the plan of the
entries: each existing line in its order and in its section, unchanged unless it assigns a wanted
key, when it gets the value of the last entry for the key or is dropped; a line for each wanted
key that no line assigned, in its section, never two for a key, and for a key that lines assign
only where its section begins more than once; and the beginnings of the sections that were not
there. Where no existing line ends in a carriage return of its own, a reader finds for every entry
what the last one for its key says. -/
theorem merges_edit_lines (language : Language) (existing : List Char) (entries : List Entry) :
    (PropertyWish entries →
      (∃ lines keys, HasLines (mergeProperties existing entries) lines ∧
        (propertyPlan entries).Fulfilled (splitLines existing) lines keys []) ∧
      (Settled existing → ∀ entry ∈ entries, ∃ last,
        lastEntry entries (fun other => other.key == entry.key) = some last ∧
          readProperty (mergeProperties existing entries) entry.key = some (trimmed last.value))) ∧
    (IniWish entries →
      (∃ lines keys places, HasLines (mergeIni existing entries) lines ∧
        (iniPlan entries).Fulfilled (splitLines existing) lines keys places) ∧
      (Settled existing → ∀ entry ∈ entries, ∃ last,
        lastEntry entries (fun other =>
          other.section_ == entry.section_ && other.key == entry.key) = some last ∧
          readIniValue (mergeIni existing entries) entry.section_ entry.key =
            some (trimmed last.value))) ∧
    (CvarWish entries →
      (∃ lines names, HasLines (mergeCvars language existing entries)
          (if lines = [] then [[]] else lines) ∧
        (cvarPlan language entries).Fulfilled (ownLines existing) lines names []) ∧
      (Settled existing → ∀ entry ∈ entries, ∃ last,
        lastEntry entries (fun other =>
          language.lowerCase other.key == language.lowerCase entry.key) = some last ∧
          readCvar language (mergeCvars language existing entries) entry.key =
            if last.remove then none else some last.value)) := by
  refine ⟨fun wish => ⟨?_, fun settled entry inside => ?_⟩,
    fun wish => ⟨?_, fun settled entry inside => ?_⟩, fun wish => ⟨?_, fun settled entry inside => ?_⟩⟩
  · obtain ⟨keys, fulfilled⟩ := property_fulfilled entries (splitLines existing)
    refine ⟨_, keys, hasLines_closed ?_ (clean_propertyLines wish.orderly), fulfilled⟩
    exact append_ne_nil_of_left_ne_nil (by simpa using splitLines_ne_nil existing) _
  · obtain ⟨last, found⟩ := @lastEntry_of_mem entries (fun other => other.key == entry.key) entry
      inside (beq_self_eq_true _)
    exact ⟨last, found, readProperty_wanted wish settled found⟩
  · obtain ⟨keys, places, fulfilled⟩ := ini_fulfilled wish.orderly existing
    refine ⟨_, keys, places, hasLines_closed ?_ (clean_iniMerged wish.orderly), fulfilled⟩
    exact fulfilled.edit.ne_nil ini_put_ne_nil (splitLines_ne_nil existing)
  · obtain ⟨last, found⟩ := @lastEntry_of_mem entries (fun other =>
      other.section_ == entry.section_ && other.key == entry.key) entry inside (by simp)
    exact ⟨last, found, @readIniValue_wanted entries existing last wish settled
      (entry.section_, entry.key) found⟩
  · obtain ⟨names, fulfilled⟩ := cvar_fulfilled language existing entries
    exact ⟨_, names, hasLines_ended (clean_cvarsMerged (CvarWish.orderly wish)), fulfilled⟩
  · obtain ⟨last, found⟩ := @lastEntry_of_mem entries (fun other =>
      language.lowerCase other.key == language.lowerCase entry.key) entry inside
      (beq_self_eq_true _)
    exact ⟨last, found, readCvar_wanted wish settled found⟩

/-- An entry for a section that a file without lines does not have. -/
def ownSection : List Entry := [⟨['a'], ['k'], ['v'], false⟩]

/-- A file with a section, and entries for it and for another one. -/
def sectioned : List Char := "[a]\nk=o\nq=1\n".toList

def sectionEdits : List Entry :=
  [⟨['a'], ['k'], ['v'], false⟩, ⟨['a'], ['n'], ['w'], false⟩, ⟨['b'], ['k'], ['u'], false⟩]

/-- A file of two variables, one of which is given another value and one let go of. -/
def twoCvars : List Char := "k \"o\"\nq \"1\"\n".toList

def cvarEdits : List Entry := [⟨[], ['k'], ['v'], false⟩, ⟨[], ['q'], [], true⟩]

theorem wish_sectionEdits : PropertyWish sectionEdits ∧ IniWish sectionEdits := by
  refine ⟨fun entry member => ?_, by decide, fun entry member => ?_, by decide, by decide⟩
  · simp only [sectionEdits, mem_cons, not_mem_nil, or_false] at member
    rcases member with rfl | rfl | rfl <;> exact ⟨⟨by decide, by decide⟩, by decide⟩
  · simp only [sectionEdits, mem_cons, not_mem_nil, or_false] at member
    rcases member with rfl | rfl | rfl <;> exact ⟨by decide, by decide, by decide, by decide⟩

theorem wish_cvarEdits : CvarWish cvarEdits := by
  intro entry member
  simp only [cvarEdits, mem_cons, not_mem_nil, or_false] at member
  rcases member with rfl | rfl <;> decide

theorem merges_edit_lines_sections :
    (∃ lines keys, HasLines (mergeProperties sectioned sectionEdits) lines ∧
      (propertyPlan sectionEdits).Fulfilled (splitLines sectioned) lines keys []) ∧
    (∃ lines keys places, HasLines (mergeIni sectioned sectionEdits) lines ∧
      (iniPlan sectionEdits).Fulfilled (splitLines sectioned) lines keys places) ∧
    (readIniValue (mergeIni sectioned sectionEdits) ['a'] ['k'] = some ['v'] ∧
      readIniValue (mergeIni sectioned sectionEdits) ['b'] ['k'] = some ['u']) ∧
    readCvar ascii (mergeCvars ascii twoCvars cvarEdits) ['k'] = some ['v'] ∧
      readCvar ascii (mergeCvars ascii twoCvars cvarEdits) ['q'] = none := by
  obtain ⟨property, ini, -⟩ := merges_edit_lines ascii sectioned sectionEdits
  obtain ⟨-, -, cvar⟩ := merges_edit_lines ascii twoCvars cvarEdits
  have settled : Settled sectioned ∧ Settled twoCvars := by
    unfold Settled
    decide +kernel
  obtain ⟨lines, -⟩ := property wish_sectionEdits.1
  obtain ⟨sections, read⟩ := ini wish_sectionEdits.2
  obtain ⟨-, show_⟩ := cvar wish_cvarEdits
  refine ⟨lines, sections, ⟨?_, ?_⟩, ?_, ?_⟩
  · obtain ⟨last, found, value⟩ := read settled.1 ⟨['a'], ['k'], ['v'], false⟩ (by decide)
    obtain rfl := some.inj found
    exact value
  · obtain ⟨last, found, value⟩ := read settled.1 ⟨['b'], ['k'], ['u'], false⟩ (by decide)
    obtain rfl := some.inj found
    exact value
  · obtain ⟨last, found, value⟩ := show_ settled.2 ⟨[], ['k'], ['v'], false⟩ (by decide)
    obtain rfl := some.inj found
    exact value
  · obtain ⟨last, found, value⟩ := show_ settled.2 ⟨[], ['q'], [], true⟩ (by decide)
    obtain rfl := some.inj found
    exact value

/-- A section that was not there takes a line that is neither an existing one nor one for a key,
and a quote in a value ends it for the reader. -/
theorem section_begun_quote_cut :
    (¬ ∃ lines keys, HasLines (mergeIni [] ownSection) lines ∧
      (iniPlan ownSection).Edit (splitLines []) lines keys []) ∧
    ['x', '"', 'y'].all isPlain = true ∧
    readCvar ascii (mergeCvars ascii [] [⟨[], ['a'], ['x', '"', 'y'], false⟩]) ['a'] =
      some ['x'] := by
  refine ⟨?_, by decide, by decide⟩
  rintro ⟨lines, keys, ⟨-, own⟩, edit⟩
  have written : feeds (mergeIni [] ownSection) = [[], ['[', 'a', ']'], ['k', '=', 'v'], []] := by
    decide
  rw [written] at own
  have begun : ['[', 'a', ']'] ∈ lines := by
    obtain whole | whole := own
    · rw [← whole]
      decide
    · have inside : ['[', 'a', ']'] ∈ lines ++ [[]] := by
        rw [← whole]
        decide
      exact (mem_append.mp inside).resolve_right (by decide)
  have none_ : ∀ line ∈ lines, line ≠ ['[', 'a', ']'] := by
    refine edit.each (fun place line inside one member same => ?_) (fun key line made same => ?_)
      fun _ _ inside => absurd inside not_mem_nil
    · have empty : line = [] := mem_singleton.mp inside
      have left : (iniPlan ownSection).put place [] = [[]] := rfl
      rw [empty, left] at member
      rw [mem_singleton.mp member] at same
      cases same
    · obtain ⟨entry, -, rfl⟩ := map_eq_some_iff.mp made
      have sign : '=' ∈ key.2 ++ '=' :: entry.value :=
        mem_append_right _ mem_cons_self
      rw [same] at sign
      exact absurd sign (by decide)
  exact none_ _ begun rfl

end Geeboard.Games
