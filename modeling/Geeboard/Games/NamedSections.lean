/-
This file is about what a merged INI file is read as: a key that the patch names in a
section holds the value the patch has for it there, and every other key what it held.

The lines of the result are those of an edit, so it is enough to know what is read of
a line with a value put in it, of one that was added, and of the lines that begin a
section, each in the section where it stands.
-/

import Geeboard.Games.SectionEdits

namespace Geeboard.Games

open Text List Option

/-- What a line gives for a key of a section, as it stands there. -/
def iniRaw (section_ key current : List Char) (line : Line) : Option (List Char) :=
  if (iniHeader line).isSome || current != section_ then none else rawOf key (iniPair line)

/-- What an INI file holds for a key of a section, as it stands there. -/
def rawIniValue (content section_ key : List Char) : Option (List Char) :=
  lastGiven iniNext (iniRaw section_ key) [] (splitLines content)

theorem readIniValue_eq (content section_ key : List Char) :
    readIniValue content section_ key = (rawIniValue content section_ key).map trimmed := by
  have same : iniGives section_ key = fun current line =>
      (iniRaw section_ key current line).map trimmed := by
    funext current line
    unfold iniGives iniRaw rawOf
    split
    · rfl
    · rw [Option.map_map]
      rfl
  unfold readIniValue rawIniValue
  rw [same, lastGiven_map]

section Lines

variable {section_ key : List Char}

theorem iniRaw_header {line : Line} {current name : List Char} (header : iniHeader line = some name) :
    iniRaw section_ key current line = none := by
  unfold iniRaw
  rw [header]
  rfl

theorem iniRaw_pair {line : Line} {pair : Pair} {current : List Char}
    (header : iniHeader line = none) (read : iniPair line = some pair) :
    iniRaw section_ key current line =
      if current = section_ ∧ pair.key = key then some pair.value else none := by
  unfold iniRaw
  rw [header, read]
  by_cases here : current = section_
  · have stays : ((none : Option (List Char)).isSome || current != section_) = false := by
      simp [here]
    rw [stays, if_neg Bool.false_ne_true]
    by_cases mine : pair.key = key
    · rw [if_pos ⟨here, mine⟩, rawOf_named mine]
    · rw [if_neg fun both => mine both.2, rawOf_other mine]
  · have away : ((none : Option (List Char)).isSome || current != section_) = true := by
      simp [here]
    rw [away, if_pos rfl, if_neg fun both => here both.1]

end Lines

/-- What a line gives for a key of a section when it is read without the break after it. -/
def iniShows (key : List Char × List Char) (current : List Char) (line : Line) :
    Option (List Char) :=
  iniRaw key.1 key.2 current (chomp line)

section Sections

variable {entries : List Entry} {existing current value : List Char}
  {key : List Char × List Char} {line : Line}

theorem iniShows_header {section_ : List Char} (header : iniHeader line = some section_) :
    iniShows key current line = none :=
  iniRaw_header ((iniHeader_chomp line).trans header)

/-- A line that was written gives nothing for another key, and its value for its own. -/
theorem iniShows_written {name : List Char} (header : iniHeader line = none)
    (rereads : Rereads iniPair line name value) :
    ((current, name) ≠ key → iniShows key current line = none) ∧
      (value.all isPlain = true → iniShows key current line =
        if (current, name) = key then some (value.dropWhile isSpace) else none) := by
  have none_ : iniHeader (chomp line) = none := (iniHeader_chomp line).trans header
  have away : current ≠ key.1 → iniShows key current line = none := by
    intro other
    unfold iniShows iniRaw
    rw [none_, if_pos (by simpa using other)]
  by_cases here : current = key.1
  · have same : iniShows key current line = rawOf key.2 (iniPair (chomp line)) := by
      unfold iniShows iniRaw
      rw [none_, if_neg (by simpa using here)]
    have both : (current, name) = key ↔ name = key.2 :=
      ⟨congrArg Prod.snd, fun own => Prod.ext here own⟩
    rw [same]
    refine ⟨fun other => rereads.other fun own => other (both.mpr own), fun plain => ?_⟩
    rw [rereads.plain plain]
    exact if_congr both.symm rfl rfl
  · exact ⟨fun _ => away here, fun _ => (away here).trans
      (if_neg fun same => here (congrArg Prod.fst same)).symm⟩

/-- What is put for a line: the line, where it begins a section or assigns no wanted key, and
otherwise the line with the wanted value in it. -/
theorem ini_put_cases (orderly : IniEntries entries) (current : List Char) (line : Line) :
    ((iniPlan entries).put current line = [line] ∧ ∀ pair, iniHeader line = none →
      iniPair line = some pair → iniEntry entries (current, pair.key) = none) ∨
    ∃ pair entry, iniHeader line = none ∧ iniPair line = some pair ∧
      iniEntry entries (current, pair.key) = some entry ∧
      (iniPlan entries).put current line = [pair.rewritten entry.value] ∧
      iniHeader (pair.rewritten entry.value) = none ∧
      Rereads iniPair (pair.rewritten entry.value) pair.key entry.value := by
  cases header : iniHeader line with
  | some section_ => exact Or.inl ⟨ini_put_header header, nofun⟩
  | none =>
    cases read : iniPair line with
    | none =>
      refine Or.inl ⟨ini_put_other header fun pair same => ?_, fun pair _ same => ?_⟩
      · exact absurd (read.symm.trans same) nofun
      · exact absurd same nofun
    | some pair =>
      cases found : iniEntry entries (current, pair.key) with
      | none =>
        refine Or.inl ⟨ini_put_other header fun other same => ?_, fun other _ same => ?_⟩
        · rw [← some.inj (read.symm.trans same)]
          exact found
        · rw [← some.inj same]
          exact found
      | some entry =>
        obtain ⟨inside, -, own⟩ := mem_of_iniEntry found
        have fits := orderly.keys entry inside
        have bare := orderly.bare entry inside
        rw [show entry.key = pair.key from own] at fits bare
        exact Or.inr ⟨pair, entry, rfl, rfl, found, ini_put_wanted header read found,
          iniHeader_rewritten read fits bare, iniPair_rewritten read fits entry.value⟩

/-- What is added for a key. -/
theorem iniAdded_made (orderly : IniEntries entries)
    (made : (iniPlan entries).added key = some line) :
    ∃ entry ∈ entries, iniEntry entries key = some entry ∧ iniHeader line = none ∧
      line = assignment (key.2, entry.value) ∧ Rereads iniPair line key.2 entry.value := by
  obtain ⟨entry, found, rfl⟩ := map_eq_some_iff.mp made
  obtain ⟨inside, -, own⟩ := mem_of_iniEntry found
  have fits := orderly.keys entry inside
  have bare := orderly.bare entry inside
  rw [own] at fits bare
  exact ⟨entry, inside, found, bare, rfl, iniPair_added fits entry.value⟩

/-- The lines that begin a section give nothing. -/
theorem iniShows_opening {section_ : List Char} (some_ : section_ ≠ []) (fits : ']' ∉ section_)
    (lines : List Line) (current : List Char) :
    Silent (iniPlan entries).next (iniShows key) current
      ((iniPlan entries).opening lines section_) := by
  have nothing : ∀ current, iniShows key current [] = none := by
    intro current
    unfold iniShows iniRaw
    split
    · rfl
    · rfl
  have turn : ∀ current, iniShows key current ('[' :: section_ ++ [']']) = none := fun current =>
    iniShows_header (iniHeader_made some_ fits)
  refine silent_of_mem _ fun line inside current => ?_
  obtain gap | last := mem_append.mp inside
  · split at gap
    · rw [mem_singleton.mp gap, nothing]
    · exact absurd gap not_mem_nil
  · rw [mem_singleton.mp last, turn]

/-- The sections begun are those of entries. -/
theorem begun_of_entry {keys : List (List Char × List Char)} {places : List (List Char)}
    {lines : List Line}
    (fulfilled : (iniPlan entries).Fulfilled (splitLines existing) lines keys places) :
    ∀ place ∈ places, place ≠ [] ∧ ∃ entry ∈ entries, entry.section_ = place := by
  intro place inside
  obtain ⟨some_, -, key, member, rfl⟩ := fulfilled.absent place inside
  obtain ⟨line, made⟩ := isSome_iff_exists.mp (fulfilled.edit.wanted key member)
  obtain ⟨entry, found, -⟩ := map_eq_some_iff.mp made
  obtain ⟨there, block, -⟩ := mem_of_iniEntry found
  exact ⟨some_, entry, there, block⟩

/-- No line of a merged INI file breaks. -/
theorem clean_iniMerged (orderly : IniEntries entries) :
    ∀ line ∈ iniMerged existing entries, '\n' ∉ line := by
  obtain ⟨keys, places, fulfilled⟩ := ini_fulfilled orderly existing
  refine fulfilled.edit.each (fun place line inside one member => ?_) (fun key line made => ?_)
    fun lines begun inside one member => ?_
  · have clean := clean_of_mem_splitLines inside
    obtain ⟨put, -⟩ | ⟨pair, entry, -, read, found, put, -⟩ := ini_put_cases orderly place line
    · rw [put] at member
      rwa [mem_singleton.mp member]
    · rw [put] at member
      rw [mem_singleton.mp member]
      exact clean_rewritten clean (iniPair_makes read).1
        (orderly.values entry (mem_of_iniEntry found).1)
  · obtain ⟨entry, inside, found, -, rfl, -⟩ := iniAdded_made orderly made
    have name := (orderly.keys entry inside).line
    rw [(mem_of_iniEntry found).2.2] at name
    unfold assignment
    simp only [mem_append, mem_cons, not_or]
    exact ⟨name, by decide, orderly.values entry inside⟩
  · obtain ⟨-, entry, there, rfl⟩ := begun_of_entry fulfilled begun inside
    have name := (orderly.sections entry there).2
    obtain gap | last := mem_append.mp member
    · split at gap
      · rw [mem_singleton.mp gap]
        exact not_mem_nil
      · exact absurd gap not_mem_nil
    · rw [mem_singleton.mp last]
      simp only [mem_append, mem_cons, not_or]
      exact ⟨⟨by decide, name⟩, by decide, not_mem_nil⟩

theorem iniNext_chomp (current : List Char) (line : Line) :
    iniNext current (chomp line) = iniNext current line := by
  unfold iniNext
  rw [iniHeader_chomp]

theorem rawIniValue_merged (orderly : IniEntries entries) :
    rawIniValue (mergeIni existing entries) key.1 key.2 =
      lastGiven iniNext (iniShows key) [] (iniMerged existing entries) := by
  have silent : ∀ current, iniRaw key.1 key.2 current [] = none := by
    intro current
    unfold iniRaw
    split
    · rfl
    · rfl
  exact (lastGiven_closed (clean_iniMerged orderly) silent fun _ => rfl).trans
    (lastGiven_changed chomp iniNext_chomp [] _)

/-- A key that the patch does not name in its section is read as before. -/
theorem readIniValue_other (orderly : IniEntries entries) (settled : Settled existing)
    {section_ name : List Char}
    (other : ∀ entry ∈ entries, ¬ (entry.section_ = section_ ∧ entry.key = name)) :
    readIniValue (mergeIni existing entries) section_ name =
      readIniValue existing section_ name := by
  obtain ⟨keys, places, fulfilled⟩ := ini_fulfilled orderly existing
  have before : rawIniValue existing section_ name =
      lastGiven iniNext (iniShows (section_, name)) [] (splitLines existing) :=
    lastGiven_settled settled iniNext_chomp
  have unasked : ∀ {asked : List Char × List Char} {entry : Entry},
      iniEntry entries asked = some entry → asked ≠ (section_, name) := by
    rintro _ entry found rfl
    obtain ⟨inside, own⟩ := mem_of_iniEntry found
    exact other entry inside own
  rw [readIniValue_eq, readIniValue_eq,
    @rawIniValue_merged entries existing (section_, name) orderly, before]
  refine congrArg (Option.map trimmed) (fulfilled.edit.lastGiven_eq
    ⟨fun place line inside => ?_, fun key line made => ?_, fun place lines begun inside => ?_⟩)
  · obtain ⟨put, -⟩ | ⟨pair, entry, header, read, found, put, quiet, rereads⟩ :=
      ini_put_cases orderly place line
    · rw [put]
      exact .refl _ _
    · rw [put]
      refine readAlike_line ?_ ?_
      · show (iniHeader _).getD place = (iniHeader line).getD place
        rw [quiet, header]
      · rw [(iniShows_written quiet rereads).1 (unasked found)]
        unfold iniShows
        rw [settled line inside, iniRaw_pair header read, if_neg]
        exact fun own => unasked found (Prod.ext own.1 own.2)
  · obtain ⟨entry, -, found, quiet, -, rereads⟩ := iniAdded_made orderly made
    exact (iniShows_written quiet rereads).1 (unasked found)
  · obtain ⟨some_, entry, there, rfl⟩ := begun_of_entry fulfilled begun inside
    exact iniShows_opening some_ (orderly.sections entry there).1 lines place

theorem ini_shows (orderly : IniEntries entries)
    (plain : ∀ entry ∈ entries, entry.value.all isPlain = true) (settled : Settled existing)
    {places : List (List Char)} (fits : ∀ place ∈ places, place ≠ [] ∧ ']' ∉ place)
    {entry : Entry} (wanted : iniEntry entries key = some entry) :
    (iniPlan entries).Shows (splitLines existing) places (iniShows key) key
      (entry.value.dropWhile isSpace) := by
  -- What is written for a key is its own value, which is the wanted one for the wanted key.
  have written : ∀ {line : Line} {place name : List Char} {last : Entry},
      iniHeader line = none → Rereads iniPair line name last.value →
      iniEntry entries (place, name) = some last → iniShows key place line =
        if (place, name) = key then some (entry.value.dropWhile isSpace) else none := by
    intro line place name last header rereads found
    rw [(iniShows_written header rereads).2 (plain last (mem_of_iniEntry found).1)]
    by_cases own : (place, name) = key
    · rw [own, wanted] at found
      rw [some.inj found]
    · rw [if_neg own, if_neg own]
  have either : ∀ other : List Char × List Char,
      (if other = key then some (entry.value.dropWhile isSpace) else none) = none ∨
        (if other = key then some (entry.value.dropWhile isSpace) else none) =
          some (entry.value.dropWhile isSpace) := fun other => (ite_eq_or_eq _ _ _).symm
  refine ⟨fun place line inside => ?_, fun other line made => ?_,
    fun place lines begun inside => (iniShows_opening (fits begun inside).1 (fits begun inside).2
      lines place).tends, fun place line inside assigned => ?_, fun line made => ?_⟩
  · obtain ⟨put, none_⟩ | ⟨pair, last, -, -, found, put, header, rereads⟩ :=
      ini_put_cases orderly place line
    · rw [put]
      refine tends_line (Or.inl ?_)
      cases header : iniHeader line with
      | some section_ => exact iniShows_header header
      | none =>
        unfold iniShows
        rw [settled line inside]
        cases read : iniPair line with
        | none =>
          unfold iniRaw
          rw [read]
          split
          · rfl
          · rfl
        | some pair =>
          rw [iniRaw_pair header read, if_neg]
          rintro ⟨rfl, own⟩
          have missing := none_ pair header read
          rw [own, wanted] at missing
          cases missing
    · rw [put]
      exact tends_line ((written header rereads found).symm ▸ either _)
  · obtain ⟨last, -, found, header, -, rereads⟩ := iniAdded_made orderly made
    exact tends_line ((written header rereads found).symm ▸ either _)
  · have header : iniHeader line = none := by
      unfold iniPlan at assigned
      dsimp only at assigned
      split at assigned
      · cases assigned
      · rename_i none_
        exact not_isSome_iff_eq_none.mp none_
    rw [ini_assigns header] at assigned
    obtain ⟨pair, read, rfl⟩ := map_eq_some_iff.mp assigned
    obtain ⟨-, none_⟩ | ⟨other, last, -, again, found, put, quiet, rereads⟩ :=
      ini_put_cases orderly place line
    · exact absurd (wanted.symm.trans (none_ pair header read)) (some_ne_none entry)
    · obtain rfl := some.inj (read.symm.trans again)
      rw [put]
      exact gives_line ((written quiet rereads found).trans (if_pos rfl))
  · obtain ⟨last, -, found, header, -, rereads⟩ := iniAdded_made orderly made
    exact gives_line ((written header rereads found).trans (if_pos rfl))

/-- A wanted key of a section holds its value there, without the blanks it begins with. -/
theorem rawIniValue_named (orderly : IniEntries entries)
    (plain : ∀ entry ∈ entries, entry.value.all isPlain = true) (settled : Settled existing)
    {entry : Entry} (wanted : iniEntry entries key = some entry) :
    rawIniValue (mergeIni existing entries) key.1 key.2 =
      some (entry.value.dropWhile isSpace) := by
  obtain ⟨keys, places, fulfilled⟩ := ini_fulfilled orderly existing
  have fits : ∀ place ∈ places, place ≠ [] ∧ ']' ∉ place := by
    intro place inside
    obtain ⟨some_, other, there, block⟩ := begun_of_entry fulfilled place inside
    exact ⟨some_, block ▸ (orderly.sections other there).1⟩
  rw [rawIniValue_merged orderly]
  refine fulfilled.lastGiven_eq (ini_shows orderly plain settled fits wanted) ?_
  unfold iniPlan
  dsimp only
  rw [wanted]
  rfl

end Sections

end Geeboard.Games
