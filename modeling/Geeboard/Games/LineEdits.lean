/-
This file is about the merges of the formats without sections as edits of lines.

What a merge into a properties file or a `.cfg` is to do is stated as a plan: the
lines that assign a wanted key get its value, or are dropped when the key is to be
removed, and a wanted key that no line assigns gets a line of its own. The lines
that come out are those of an edit that fulfils the plan. A reader of the result
finds what was asked for, and for a key that was not asked for what was there.
-/

import Geeboard.Games.Rereads
import Geeboard.Text.Edits

namespace Geeboard.Games

open Text List Option

/-- The entry that holds among those it is about: the last one. -/
def lastEntry (entries : List Entry) (about : Entry → Bool) : Option Entry :=
  entries.reverse.find? about

theorem mem_of_lastEntry {entries : List Entry} {about : Entry → Bool} {entry : Entry}
    (last : lastEntry entries about = some entry) : entry ∈ entries ∧ about entry = true :=
  ⟨mem_reverse.mp (mem_of_find?_eq_some last), find?_some last⟩

theorem lastEntry_of_mem {entries : List Entry} {about : Entry → Bool} {entry : Entry}
    (inside : entry ∈ entries) (own : about entry = true) :
    ∃ last, lastEntry entries about = some last :=
  isSome_iff_exists.mp
    (find?_isSome.mpr ⟨entry, mem_reverse.mpr inside, own⟩)

/-! ### Properties -/

/-- What a merge into a properties file is to do. -/
def propertyPlan (entries : List Entry) : Plan Unit (List Char) Line where
  start := ()
  opens := fun _ => none
  assigns := fun _ line => (keyLine line).map Pair.key
  home := fun _ => ()
  changed := fun key line => (keyLine line).bind fun pair =>
    (lastEntry entries fun entry => entry.key == key).map fun entry => [pair.rewritten entry.value]
  added := fun key =>
    (lastEntry entries fun entry => entry.key == key).map fun entry => key ++ '=' :: entry.value
  opening := fun _ _ => []

section Properties

variable {entries : List Entry} {existing : List Char}

theorem propertyLine_put (entries : List Entry) (line : Line) :
    (propertyPlan entries).put () line = [propertyLine (wantedOf entries) line] := by
  obtain ⟨pair, value, read, asked, made⟩ | ⟨none_, made⟩ :=
    propertyLine_cases (wantedOf entries) line
  · rw [made]
    have assigned : (propertyPlan entries).assigns () line = some pair.key :=
      congrArg (Option.map Pair.key) read
    refine Plan.put_of_changed assigned ?_
    rw [wantedOf_find] at asked
    obtain ⟨entry, last, rfl⟩ := map_eq_some_iff.mp asked
    unfold propertyPlan lastEntry
    dsimp only
    rw [read, bind_some, last, map_some]
  · rw [made]
    refine Plan.put_of_unchanged fun key assigned => ?_
    obtain ⟨pair, read, rfl⟩ := map_eq_some_iff.mp
      (assigned : (keyLine line).map Pair.key = some key)
    have missing := none_ pair read
    rw [wantedOf_find, map_eq_none_iff] at missing
    unfold propertyPlan lastEntry
    dsimp only
    rw [read, bind_some, missing, map_none]

theorem property_assigned {lines : List Line} {key : List Char} :
    (propertyPlan entries).Assigned lines key ↔ lines.any (assigns key) = true := by
  rw [Plan.assigned_flat fun _ => rfl, List.any_eq_true]
  refine exists_congr fun line => and_congr_right fun _ => ?_
  rw [assigns_iff]
  exact map_eq_some_iff

/-- The lines of a merged properties file are those of an edit. -/
theorem property_fulfilled (entries : List Entry) (lines : List Line) :
    ∃ keys, (propertyPlan entries).Fulfilled lines (propertyLines (wantedOf entries) lines)
      keys [] := by
  have put : lines.flatMap ((propertyPlan entries).put ()) =
      lines.map (propertyLine (wantedOf entries)) := by
    rw [map_eq_flatMap]
    exact congrArg lines.flatMap (funext (propertyLine_put entries))
  have done := @Plan.Fulfilled.of_lines _ _ _ (propertyPlan entries) _ lines
    (((wantedOf entries).entries.filter fun entry => !lines.any (assigns entry.1)).map
      fun entry => (entry.1, assignment entry)) (fun _ => rfl) (fun _ => rfl) ?_ ?_
  · have same : lines.flatMap ((propertyPlan entries).put (propertyPlan entries).start) =
        lines.map (propertyLine (wantedOf entries)) := put
    rw [same, List.map_map] at done
    exact ⟨_, done⟩
  · rw [List.map_map]
    exact (wantedOf entries).distinct.sublist (filter_sublist.map _)
  · intro key line
    rw [property_assigned]
    constructor
    · intro inside
      obtain ⟨entry, there, same⟩ := List.mem_map.mp inside
      obtain ⟨rfl, rfl⟩ := Prod.mk.inj same
      obtain ⟨member, unseen⟩ := mem_filter.mp there
      have asked := Record.get_of_mem member
      rw [wantedOf_find] at asked
      obtain ⟨own, last, value⟩ := map_eq_some_iff.mp asked
      refine ⟨?_, by simpa using unseen⟩
      unfold propertyPlan lastEntry
      dsimp only
      rw [last, map_some, value]
      rfl
    · rintro ⟨added, unseen⟩
      obtain ⟨own, last, rfl⟩ := map_eq_some_iff.mp added
      have asked : (wantedOf entries).get key = some own.value := by
        rw [wantedOf_find]
        exact congrArg (Option.map Entry.value) last
      refine List.mem_map.mpr ⟨(key, own.value), mem_filter.mpr ⟨Record.mem_of_get asked, ?_⟩,
        rfl⟩
      simpa using unseen

/-- What a merge into a properties file may be asked to write: keys that such a file can have, and
values of a single line. -/
def PropertyWish (entries : List Entry) : Prop :=
  ∀ entry ∈ entries, PropertyKey entry.key ∧ entry.value.all isPlain = true

/-- Keys that a properties file can have, and values that break no line. -/
structure PropertyEntries (entries : List Entry) : Prop where
  keys : ∀ entry ∈ entries, PropertyKey entry.key
  values : ∀ entry ∈ entries, '\n' ∉ entry.value

theorem PropertyWish.orderly (wish : PropertyWish entries) : PropertyEntries entries :=
  ⟨fun entry inside => (wish entry inside).1, fun entry inside =>
    clean_of_plain (wish entry inside).2⟩

theorem clean_propertyLines (orderly : PropertyEntries entries) :
    ∀ line ∈ propertyLines (wantedOf entries) (splitLines existing), '\n' ∉ line := by
  intro line member
  obtain kept | new := mem_append.mp member
  · obtain ⟨old, inside, rfl⟩ := List.mem_map.mp kept
    have clean := clean_of_mem_splitLines inside
    obtain ⟨pair, value, read, asked, same⟩ | ⟨-, same⟩ :=
      propertyLine_cases (wantedOf entries) old
    · obtain ⟨entry, there, -, rfl⟩ := wantedOf_get asked
      rw [same]
      exact clean_rewritten clean (pairOf_makes read).line (orderly.values entry there)
    · rwa [same]
  · obtain ⟨⟨name, value⟩, fresh, rfl⟩ := List.mem_map.mp new
    obtain ⟨entry, there, rfl, rfl⟩ := mem_wantedOf (mem_filter.mp fresh).1
    unfold assignment
    simp only [mem_append, mem_cons, not_or]
    exact ⟨clean_of_keys keyClass_property (orderly.keys entry there).2, by decide,
      orderly.values entry there⟩

/-- What a properties file holds for a key, as it stands there. -/
def rawProperty (content key : List Char) : Option (List Char) :=
  lastGiven (fun (_ : Unit) _ => ()) (fun _ line => rawOf key (keyLine line)) ()
    (splitLines content)

/-- What a line gives for a key when it is read without the break after it. -/
def propertyGives (key : List Char) (_ : Unit) (line : Line) : Option (List Char) :=
  rawOf key (keyLine (chomp line))

variable {key value : List Char}

theorem readProperty_eq (content : List Char) :
    readProperty content key = (rawProperty content key).map trimmed := by
  have same : (fun (_ : Unit) line => ((keyLine line).filter fun pair => pair.key == key).map
      fun pair => trimmed pair.value) = fun _ line => (rawOf key (keyLine line)).map trimmed := by
    funext _ line
    unfold rawOf
    rw [Option.map_map]
    rfl
  unfold readProperty rawProperty
  rw [same, lastGiven_map]

theorem rawProperty_merged (orderly : PropertyEntries entries) :
    rawProperty (mergeProperties existing entries) key =
      lastGiven (fun (_ : Unit) _ => ()) (propertyGives key) ()
        (propertyLines (wantedOf entries) (splitLines existing)) :=
  (lastGiven_closed (clean_propertyLines orderly) (fun _ => rfl) fun _ => rfl).trans
    (lastGiven_changed chomp (fun _ _ => rfl) () _)

/-- What the lines added for a key are read as. -/
theorem propertyAdded_rereads (orderly : PropertyEntries entries) {other : List Char} {line : Line}
    (made : (propertyPlan entries).added other = some line) :
    ∃ added, (wantedOf entries).get other = some added ∧
      (∃ entry ∈ entries, entry.key = other ∧ entry.value = added) ∧
        Rereads keyLine line other added := by
  obtain ⟨entry, last, rfl⟩ := map_eq_some_iff.mp made
  obtain ⟨inside, own⟩ := mem_of_lastEntry last
  obtain ⟨some_, keys⟩ := orderly.keys entry inside
  rw [beq_iff_eq.mp own] at some_ keys
  refine ⟨entry.value, ?_, ⟨entry, inside, beq_iff_eq.mp own, rfl⟩,
    pairOf_added keyClass_property keys (any_head_of_ne_nil some_) entry.value⟩
  rw [wantedOf_find]
  exact congrArg (Option.map Entry.value) last

/-- A key that the patch does not name is read as before. -/
theorem readProperty_other (orderly : PropertyEntries entries) (settled : Settled existing)
    (other : ∀ entry ∈ entries, entry.key ≠ key) :
    readProperty (mergeProperties existing entries) key = readProperty existing key := by
  obtain ⟨keys, fulfilled⟩ := property_fulfilled entries (splitLines existing)
  have before : rawProperty existing key = lastGiven (fun (_ : Unit) _ => ()) (propertyGives key) ()
      (splitLines existing) := lastGiven_settled settled fun _ _ => rfl
  rw [readProperty_eq, readProperty_eq, rawProperty_merged orderly, before]
  refine congrArg (Option.map trimmed) (fulfilled.edit.lastGiven_eq
    ⟨fun place line inside => ?_, fun name line made => ?_, fun _ _ _ inside => ?_⟩)
  · have put : (propertyPlan entries).put place line = _ := propertyLine_put entries line
    rw [put]
    obtain ⟨pair, value, read, asked, same⟩ | ⟨-, same⟩ :=
      propertyLine_cases (wantedOf entries) line
    · obtain ⟨entry, there, named, -⟩ := wantedOf_get asked
      have different : pair.key ≠ key := named ▸ other entry there
      refine readAlike_line rfl ?_
      unfold propertyGives
      rw [same, settled line inside]
      exact ((pairOf_rewritten keyClass_property read value).other different).trans
        ((congrArg (rawOf key) read).trans (rawOf_other different)).symm
    · rw [same]
      exact .refl _ _
  · obtain ⟨added, -, ⟨entry, there, named, -⟩, rereads⟩ := propertyAdded_rereads orderly made
    exact rereads.other (named ▸ other entry there)
  · exact absurd inside not_mem_nil

theorem property_shows (orderly : PropertyEntries entries)
    (plain : ∀ entry ∈ entries, entry.value.all isPlain = true) (settled : Settled existing)
    (asked : (wantedOf entries).get key = some value) :
    (propertyPlan entries).Shows (splitLines existing) [] (propertyGives key) key
      (value.dropWhile isSpace) := by
  have put : ∀ place line, (propertyPlan entries).put place line =
      [propertyLine (wantedOf entries) line] := fun _ line => propertyLine_put entries line
  -- What is written for a key is the wanted value where the key is the one that is read.
  have written : ∀ {line : Line} {name other : List Char}, Rereads keyLine line name other →
      (wantedOf entries).get name = some other →
        propertyGives key () line = if name = key then some (value.dropWhile isSpace) else none := by
    intro line name other rereads wanted
    obtain ⟨entry, there, -, rfl⟩ := wantedOf_get wanted
    refine (rereads.plain (plain entry there)).trans ?_
    by_cases own : name = key
    · rw [own, asked] at wanted
      rw [some.inj wanted]
    · rw [if_neg own, if_neg own]
  have either : ∀ name : List Char, (if name = key then some (value.dropWhile isSpace) else none) =
      none ∨ (if name = key then some (value.dropWhile isSpace) else none) =
        some (value.dropWhile isSpace) := fun name => (ite_eq_or_eq _ _ _).symm
  refine ⟨fun place line inside => ?_, fun name line made => ?_, fun _ _ _ inside => ?_,
    fun place line inside own => ?_, fun line made => ?_⟩
  · rw [put]
    refine tends_line ?_
    obtain ⟨pair, other, read, wanted, same⟩ | ⟨none_, same⟩ :=
      propertyLine_cases (wantedOf entries) line
    · rw [same, show propertyGives key place _ = _ from
        written (pairOf_rewritten keyClass_property read other) wanted]
      exact either _
    · refine Or.inl ?_
      unfold propertyGives
      rw [same, settled line inside]
      cases read : keyLine line with
      | none => rfl
      | some pair =>
        refine rawOf_other ?_
        rintro rfl
        exact absurd (asked.symm.trans (none_ pair read)) (some_ne_none value)
  · obtain ⟨added, wanted, -, rereads⟩ := propertyAdded_rereads orderly made
    exact tends_line ((written rereads wanted).symm ▸ either _)
  · exact absurd inside not_mem_nil
  · rw [put]
    obtain ⟨found, reads, rfl⟩ := map_eq_some_iff.mp
      (own : (keyLine line).map Pair.key = some key)
    obtain ⟨pair, other, read, wanted, same⟩ | ⟨none_, -⟩ :=
      propertyLine_cases (wantedOf entries) line
    · obtain rfl := some.inj (read.symm.trans reads)
      rw [same]
      exact gives_line ((written (pairOf_rewritten keyClass_property read other) wanted).trans
        (if_pos rfl))
    · exact absurd (asked.symm.trans (none_ found reads)) (some_ne_none value)
  · obtain ⟨added, wanted, -, rereads⟩ := propertyAdded_rereads orderly made
    exact gives_line ((written rereads wanted).trans (if_pos rfl))

/-- A wanted key holds its value, without the blanks it begins with. -/
theorem rawProperty_named (orderly : PropertyEntries entries)
    (plain : ∀ entry ∈ entries, entry.value.all isPlain = true) (settled : Settled existing)
    (asked : (wantedOf entries).get key = some value) :
    rawProperty (mergeProperties existing entries) key = some (value.dropWhile isSpace) := by
  obtain ⟨keys, fulfilled⟩ := property_fulfilled entries (splitLines existing)
  rw [rawProperty_merged orderly]
  refine fulfilled.lastGiven_eq (property_shows orderly plain settled asked) ?_
  rw [wantedOf_find] at asked
  obtain ⟨entry, last, -⟩ := map_eq_some_iff.mp asked
  unfold propertyPlan lastEntry
  dsimp only
  rw [last]
  rfl

end Properties

/-! ### Cvars -/

/-- What a merge into a `.cfg` is to do. -/
def cvarPlan (language : Language) (entries : List Entry) : Plan Unit (List Char) Line where
  start := ()
  opens := fun _ => none
  assigns := fun _ line => (cvarLine line).map fun pair => language.lowerCase pair.key
  home := fun _ => ()
  changed := fun name line => (cvarLine line).bind fun pair =>
    (lastEntry entries fun entry => language.lowerCase entry.key == name).map fun entry =>
      if entry.remove then [] else [pair.rewritten ('"' :: entry.value ++ ['"'])]
  added := fun name =>
    (lastEntry entries fun entry => language.lowerCase entry.key == name).bind fun entry =>
      if entry.remove then none else some (entry.key ++ ' ' :: '"' :: entry.value ++ ['"'])
  opening := fun _ _ => []

/-- What a merge into a `.cfg` may be asked to write: names that a cvar can have, and values of a
single line, without a quote unless the cvar is to be removed. -/
def CvarWish (entries : List Entry) : Prop :=
  ∀ entry ∈ entries, entry.key ≠ [] ∧ (∀ char ∈ entry.key, isWordChar char = true) ∧
    entry.value.all isPlain = true ∧ (entry.remove = false → '"' ∉ entry.value)

/-- Names that a cvar can have, and values that break no line. -/
structure CvarEntries (entries : List Entry) : Prop where
  some_ : ∀ entry ∈ entries, entry.key ≠ []
  keys : ∀ entry ∈ entries, ∀ char ∈ entry.key, isWordChar char = true
  values : ∀ entry ∈ entries, '\n' ∉ entry.value

section Cvars

variable {language : Language} {entries : List Entry} {existing name : List Char} {own : Entry}

theorem cvarLines_put (language : Language) (entries : List Entry) (line : Line) :
    (cvarPlan language entries).put () line =
      cvarLines language (cvarsWanted language entries) line := by
  obtain ⟨pair, entry, read, asked, made⟩ | ⟨none_, made⟩ :=
    cvarLines_cases language (cvarsWanted language entries) line
  · have assigned : (cvarPlan language entries).assigns () line =
        some (language.lowerCase pair.key) :=
      congrArg (Option.map fun found : Pair => language.lowerCase found.key) read
    refine Plan.put_of_changed assigned ?_
    rw [cvarsWanted_find] at asked
    unfold cvarPlan lastEntry
    dsimp only
    rw [read, bind_some, asked, map_some]
    obtain removed | kept := made
    · rw [removed.2, if_pos removed.1]
    · rw [kept.2, if_neg (Bool.eq_false_iff.mp kept.1)]
  · rw [made]
    refine Plan.put_of_unchanged fun key assigned => ?_
    obtain ⟨pair, read, rfl⟩ := map_eq_some_iff.mp
      (assigned : (cvarLine line).map (fun pair => language.lowerCase pair.key) = some key)
    have missing := none_ pair read
    rw [cvarsWanted_find] at missing
    unfold cvarPlan lastEntry
    dsimp only
    rw [read, bind_some, missing, map_none]

theorem cvar_assigned {lines : List Line} :
    (cvarPlan language entries).Assigned lines name ↔
      lines.any (sets language name) = true := by
  rw [Plan.assigned_flat fun _ => rfl, List.any_eq_true]
  refine exists_congr fun line => and_congr_right fun _ => ?_
  rw [sets_iff]
  exact map_eq_some_iff

/-- The lines of a merged `.cfg` are those of an edit. -/
theorem cvar_fulfilled (language : Language) (existing : List Char) (entries : List Entry) :
    ∃ names, (cvarPlan language entries).Fulfilled (ownLines existing)
      (cvarsMerged language existing entries) names [] := by
  have put : (ownLines existing).flatMap ((cvarPlan language entries).put ()) =
      (ownLines existing).flatMap (cvarLines language (cvarsWanted language entries)) :=
    congrArg (ownLines existing).flatMap (funext (cvarLines_put language entries))
  have done := @Plan.Fulfilled.of_lines _ _ _ (cvarPlan language entries) _ (ownLines existing)
    (((cvarsWanted language entries).entries.filter fun entry =>
      !(ownLines existing).any (sets language entry.1) && !entry.2.remove).map
        fun entry => (entry.1, entry.2.key ++ ' ' :: '"' :: entry.2.value ++ ['"']))
    (fun _ => rfl) (fun _ => rfl) ?_ ?_
  · have same : (ownLines existing).flatMap
        ((cvarPlan language entries).put (cvarPlan language entries).start) =
          (ownLines existing).flatMap (cvarLines language (cvarsWanted language entries)) := put
    rw [same, List.map_map] at done
    exact ⟨_, done⟩
  · rw [List.map_map]
    exact (cvarsWanted language entries).distinct.sublist (filter_sublist.map _)
  · intro name line
    rw [cvar_assigned]
    constructor
    · intro inside
      obtain ⟨entry, there, same⟩ := List.mem_map.mp inside
      obtain ⟨rfl, rfl⟩ := Prod.mk.inj same
      obtain ⟨member, new⟩ := mem_filter.mp there
      obtain ⟨unseen, kept⟩ := Bool.and_eq_true_iff.mp new
      have asked := Record.get_of_mem member
      rw [cvarsWanted_find] at asked
      refine ⟨?_, by simpa using unseen⟩
      unfold cvarPlan lastEntry
      dsimp only
      rw [asked, bind_some, if_neg (by simpa using kept)]
    · rintro ⟨added, unseen⟩
      obtain ⟨entry, last, made⟩ := bind_eq_some_iff.mp added
      split at made
      · cases made
      · rename_i kept
        obtain rfl := some.inj made
        have asked : (cvarsWanted language entries).get name = some entry := by
          rw [cvarsWanted_find]
          exact last
        refine List.mem_map.mpr ⟨(name, entry), mem_filter.mpr
          ⟨Record.mem_of_get asked, ?_⟩, rfl⟩
        simpa using And.intro unseen kept

theorem CvarWish.orderly (wish : CvarWish entries) : CvarEntries entries :=
  ⟨fun entry inside => (wish entry inside).1, fun entry inside => (wish entry inside).2.1,
    fun entry inside => clean_of_plain (wish entry inside).2.2.1⟩

/-- The lines a merge walks are those of the file, but for the empty ones at its end. -/
theorem ownLines_alike {State Value : Type} {next : State → Line → State}
    {gives : State → Line → Option Value}
    (empty : ∀ state, next state [] = state ∧ gives state [] = none) (state : State) :
    ReadAlike next gives state (ownLines existing) (splitLines existing) := by
  unfold ownLines
  dsimp only
  by_cases none_ : existing = []
  · subst none_
    exact (readAlike_nothing (empty state).1 (empty state).2).symm
  · rw [if_neg none_]
    split
    · rename_i ends
      obtain ⟨front, same⟩ := getLast?_eq_some_iff.mp ends
      rw [same, dropLast_concat]
      have last := @readAlike_nothing _ _ _ next gives (front.foldl next state) []
        (empty _).1 (empty _).2
      have all := (ReadAlike.refl state front).append last.symm
      rwa [append_nil] at all
    · exact .refl _ _

theorem mem_ownLines {line : Line} (member : line ∈ ownLines existing) :
    line ∈ splitLines existing := by
  have within : ∀ lines : List Line,
      line ∈ (if lines.getLast? = some [] then lines.dropLast else lines) → line ∈ lines := by
    intro lines inside
    split at inside
    · exact dropLast_subset _ inside
    · exact inside
  have all := within _ member
  split at all
  · cases all
  · exact all

/-- The command that the line added for an entry is. -/
def cvarAdded (entry : Entry) : Pair := ⟨[], entry.key, [' '], []⟩

theorem cvarAdded_commands (orderly : CvarEntries entries) {entry : Entry}
    (inside : entry ∈ entries) : (cvarAdded entry).Commands (entry.key ++ [' ']) :=
  ⟨rfl, fun _ member => absurd member not_mem_nil, orderly.some_ entry inside,
    orderly.keys entry inside, cons_ne_nil _ _, forall_mem_singleton.mpr (by decide)⟩

theorem cvarAdded_made {lower : List Char} {line : Line}
    (made : (cvarPlan language entries).added lower = some line) :
    ∃ entry ∈ entries, (cvarsWanted language entries).get lower = some entry ∧
      language.lowerCase entry.key = lower ∧ entry.remove = false ∧
        line = (cvarAdded entry).rewritten ('"' :: entry.value ++ ['"']) := by
  obtain ⟨entry, last, added⟩ := bind_eq_some_iff.mp made
  obtain ⟨inside, same⟩ := mem_of_lastEntry last
  split at added
  · cases added
  · rename_i kept
    refine ⟨entry, inside, ?_, beq_iff_eq.mp same, eq_false_of_ne_true kept, ?_⟩
    · rw [cvarsWanted_find]
      exact last
    · rw [← some.inj added]
      unfold Pair.rewritten cvarAdded
      simp

theorem clean_cvarsMerged (orderly : CvarEntries entries) :
    ∀ line ∈ cvarsMerged language existing entries, '\n' ∉ line := by
  obtain ⟨names, fulfilled⟩ := cvar_fulfilled language existing entries
  have quoted : ∀ entry ∈ entries, '\n' ∉ '"' :: entry.value ++ ['"'] := fun entry inside => by
    simp [orderly.values entry inside]
  refine fulfilled.edit.each (fun place line inside one member => ?_) (fun lower line made => ?_)
    fun _ _ inside => absurd inside not_mem_nil
  · have put : (cvarPlan language entries).put place line = _ := cvarLines_put language entries line
    have clean := clean_of_mem_splitLines (mem_ownLines inside)
    rw [put] at member
    obtain ⟨pair, entry, read, asked, ⟨-, same⟩ | ⟨-, same⟩⟩ | ⟨-, same⟩ :=
      cvarLines_cases language (cvarsWanted language entries) line
    · rw [same] at member
      exact absurd member not_mem_nil
    · rw [same] at member
      rw [mem_singleton.mp member]
      exact clean_rewritten clean (cvarLine_commands read).line
        (quoted entry (mem_cvarsWanted (Record.mem_of_get asked)).1)
    · rw [same] at member
      rwa [mem_singleton.mp member]
  · obtain ⟨entry, inside, -, -, -, rfl⟩ := cvarAdded_made made
    refine clean_rewritten ?_ (cvarAdded_commands orderly inside).line (quoted entry inside)
    simp [clean_of_keys keyClass_word (orderly.keys entry inside)]

/-- A value that is taken back from between double quotes. -/
structure Quotable (value : List Char) : Prop where
  plain : value.all isPlain = true
  quotes : '"' ∉ value

theorem cvarText_quoted {value : List Char} (quotable : Quotable value) :
    cvarText ('"' :: (value ++ ['"'])) = value := by
  have all : ∀ char ∈ value, (char != '"') = true := by
    intro char member
    rw [bne_iff_ne]
    rintro rfl
    exact quotable.quotes member
  unfold cvarText
  split
  · rename_i quoted same
    rw [← (cons.inj same).2, takeWhile_append_of_pos all,
      takeWhile_cons_of_neg (by decide), append_nil]
  · rename_i other
    exact absurd rfl (other _)

theorem plain_quoted {value : List Char} (quotable : Quotable value) :
    ('"' :: (value ++ ['"'])).all isPlain = true := by
  rw [all_cons, all_append, quotable.plain]
  rfl

/-- What a line of a `.cfg` sets a cvar to. -/
def cvarGives (language : Language) (name : List Char) (line : Line) : Option (List Char) :=
  ((cvarLine line).filter fun pair =>
    language.lowerCase pair.key == language.lowerCase name).map fun pair => cvarText pair.value

theorem cvarGives_of {line : Line} {pair : Pair} (read : cvarLine line = some pair) :
    cvarGives language name line =
      if language.lowerCase pair.key = language.lowerCase name then some (cvarText pair.value)
      else none := by
  unfold cvarGives
  rw [read]
  split
  · rename_i same
    rw [filter_some_pos (by simpa using same)]
    rfl
  · rename_i other
    rw [filter_some_neg (by simpa using other)]
    rfl

theorem cvarGives_none {line : Line} (read : cvarLine line = none) :
    cvarGives language name line = none := by
  unfold cvarGives
  rw [read]
  rfl

/-- A line of the patch's own making sets its cvar alone, to a value that can be taken back. -/
theorem cvarGives_rewritten {line : Line} {pair : Pair} (commands : pair.Commands line)
    (value : List Char) :
    (language.lowerCase pair.key ≠ language.lowerCase name → cvarGives language name
      (chomp (pair.rewritten ('"' :: value ++ ['"']))) = none) ∧
    (Quotable value → cvarGives language name (chomp (pair.rewritten ('"' :: value ++ ['"']))) =
      if language.lowerCase pair.key = language.lowerCase name then some value else none) := by
  have built := @cvarLine_built pair.indent pair.key pair.separator (value ++ ['"']) '"'
    commands.indent commands.some_ commands.key commands.gap commands.separator (by decide)
  have whole : chomp (pair.rewritten ('"' :: value ++ ['"'])) =
      pair.indent ++ (pair.key ++ (pair.separator ++ '"' :: (value ++ ['"']))) := by
    unfold Pair.rewritten
    rw [← append_assoc _ ('"' :: value), quoted_append]
    simp
  rw [whole]
  refine ⟨fun other => ?_, fun quotable => ?_⟩
  · split at built
    · rw [cvarGives_of built, if_neg other]
    · exact cvarGives_none built
  · rw [if_pos (plain_quoted quotable)] at built
    rw [cvarGives_of built, cvarText_quoted quotable]

theorem readCvar_merged (orderly : CvarEntries entries) :
    readCvar language (mergeCvars language existing entries) name =
      lastGiven (fun (_ : Unit) _ => ()) (fun _ line => cvarGives language name (chomp line)) ()
        (cvarsMerged language existing entries) :=
  (lastGiven_ended (clean_cvarsMerged orderly) (fun _ => rfl) fun _ => rfl).trans
    (lastGiven_changed chomp (fun _ _ => rfl) () _)

/-- A cvar that the patch does not name is read as before. -/
theorem readCvar_other (orderly : CvarEntries entries) (settled : Settled existing)
    (other : ∀ entry ∈ entries, language.lowerCase entry.key ≠ language.lowerCase name) :
    readCvar language (mergeCvars language existing entries) name =
      readCvar language existing name := by
  obtain ⟨names, fulfilled⟩ := cvar_fulfilled language existing entries
  have before : readCvar language existing name = lastGiven (fun (_ : Unit) _ => ())
      (fun _ line => cvarGives language name (chomp line)) () (ownLines existing) :=
    (lastGiven_settled settled fun _ _ => rfl).trans
      (ReadAlike.lastGiven_eq (ownLines_alike (fun _ => ⟨rfl, rfl⟩) ())).symm
  rw [readCvar_merged orderly, before]
  refine fulfilled.edit.lastGiven_eq
    ⟨fun place line inside => ?_, fun lower line made => ?_, fun _ _ _ inside => ?_⟩
  · have put : (cvarPlan language entries).put place line = _ := cvarLines_put language entries line
    rw [put]
    have gaveNothing : ∀ {pair : Pair} {entry : Entry}, cvarLine line = some pair →
        (cvarsWanted language entries).get (language.lowerCase pair.key) = some entry →
          language.lowerCase pair.key ≠ language.lowerCase name ∧
            cvarGives language name (chomp line) = none := by
      intro pair entry read asked
      obtain ⟨there, same⟩ := mem_cvarsWanted (Record.mem_of_get asked)
      have different : language.lowerCase pair.key ≠ language.lowerCase name :=
        same ▸ other entry there
      rw [settled line (mem_ownLines inside), cvarGives_of read, if_neg different]
      exact ⟨different, rfl⟩
    obtain ⟨pair, entry, read, asked, ⟨-, same⟩ | ⟨-, same⟩⟩ | ⟨-, same⟩ :=
      cvarLines_cases language (cvarsWanted language entries) line
    · rw [same]
      exact ReadAlike.symm (readAlike_nothing rfl (gaveNothing read asked).2)
    · obtain ⟨different, nothing⟩ := gaveNothing read asked
      rw [same]
      exact readAlike_line rfl (((cvarGives_rewritten (cvarLine_commands read) _).1 different).trans
        nothing.symm)
    · rw [same]
      exact .refl _ _
  · obtain ⟨entry, there, -, -, -, rfl⟩ := cvarAdded_made made
    exact (cvarGives_rewritten (cvarAdded_commands orderly there) _).1 (other entry there)
  · exact absurd inside not_mem_nil

section Named

variable (quotable : ∀ entry ∈ entries, entry.remove = false → Quotable entry.value)
  (has : (cvarsWanted language entries).get (language.lowerCase name) = some own)

include quotable has

/-- What is written for an entry sets the cvar to the patch's value, or not at all. -/
theorem cvarWritten_gives {line : Line} {pair : Pair} (commands : pair.Commands line)
    {entry : Entry} (kept : entry.remove = false)
    (wanted : (cvarsWanted language entries).get (language.lowerCase pair.key) = some entry) :
    cvarGives language name (chomp (pair.rewritten ('"' :: entry.value ++ ['"']))) =
      if language.lowerCase pair.key = language.lowerCase name then some own.value else none := by
  have there := (mem_cvarsWanted (Record.mem_of_get wanted)).1
  rw [(cvarGives_rewritten commands _).2 (quotable entry there kept)]
  split
  · rename_i same
    rw [same, has] at wanted
    rw [some.inj wanted]
  · rfl

theorem cvarLines_give {line : Line} (settled : chomp line = line) :
    ∀ put ∈ cvarLines language (cvarsWanted language entries) line,
      cvarGives language name (chomp put) = none ∨
        own.remove = false ∧ cvarGives language name (chomp put) = some own.value := by
  intro put member
  obtain ⟨pair, entry, read, asked, ⟨-, same⟩ | ⟨kept, same⟩⟩ | ⟨none_, same⟩ :=
    cvarLines_cases language (cvarsWanted language entries) line
  · rw [same] at member
    exact absurd member not_mem_nil
  · rw [same] at member
    rw [mem_singleton.mp member,
      cvarWritten_gives quotable has (cvarLine_commands read) kept asked]
    split
    · rename_i mine
      rw [mine, has] at asked
      exact Or.inr ⟨some.inj asked ▸ kept, rfl⟩
    · exact Or.inl rfl
  · rw [same] at member
    rw [mem_singleton.mp member, settled]
    cases read : cvarLine line with
    | none => exact Or.inl (cvarGives_none read)
    | some pair =>
      rw [cvarGives_of read, if_neg]
      · exact Or.inl rfl
      · intro mine
        exact absurd (has.symm.trans (mine ▸ none_ pair read)) (some_ne_none own)

theorem cvarAdded_gives (orderly : CvarEntries entries) {lower : List Char} {line : Line}
    (made : (cvarPlan language entries).added lower = some line) :
    (lower = language.lowerCase name → own.remove = false ∧
      cvarGives language name (chomp line) = some own.value) ∧
    (lower ≠ language.lowerCase name → cvarGives language name (chomp line) = none) := by
  obtain ⟨entry, there, wanted, rfl, kept, rfl⟩ := cvarAdded_made made
  rw [cvarWritten_gives quotable has (cvarAdded_commands orderly there) kept wanted]
  refine ⟨fun mine => ⟨?_, if_pos mine⟩, fun other => if_neg other⟩
  rw [mine, has] at wanted
  exact some.inj wanted ▸ kept

theorem cvar_shows (orderly : CvarEntries entries) (settled : Settled existing)
    (kept : own.remove = false) :
    (cvarPlan language entries).Shows (ownLines existing) []
      (fun _ line => cvarGives language name (chomp line)) (language.lowerCase name) own.value := by
  have put : ∀ place line, (cvarPlan language entries).put place line = _ :=
    fun _ line => cvarLines_put language entries line
  have added {lower : List Char} {line : Line}
      (made : (cvarPlan language entries).added lower = some line) :=
    cvarAdded_gives quotable has orderly made
  refine ⟨fun place line inside => ?_, fun lower line made => tends_line ?_,
    fun _ _ _ inside => absurd inside not_mem_nil, fun place line inside sets => ?_,
    fun line made => gives_line ((added made).1 rfl).2⟩
  · rw [put]
    refine tends_of_lines _ fun front one back parts => ?_
    refine (cvarLines_give quotable has (settled line (mem_ownLines inside)) one ?_).imp_right
      And.right
    rw [parts]
    exact mem_append_right _ mem_cons_self
  · by_cases mine : lower = language.lowerCase name
    · exact Or.inr ((added made).1 mine).2
    · exact Or.inl ((added made).2 mine)
  · obtain ⟨pair, read, mine⟩ := map_eq_some_iff.mp
      (sets : (cvarLine line).map (fun pair => language.lowerCase pair.key) = _)
    rw [put]
    obtain ⟨found, entry, again, asked, ⟨removed, same⟩ | ⟨stays, same⟩⟩ | ⟨none_, same⟩ :=
      cvarLines_cases language (cvarsWanted language entries) line
    · obtain rfl := some.inj (read.symm.trans again)
      rw [mine, has] at asked
      rw [← some.inj asked, kept] at removed
      cases removed
    · obtain rfl := some.inj (read.symm.trans again)
      rw [same]
      exact gives_line ((cvarWritten_gives quotable has (cvarLine_commands read) stays asked).trans
        (if_pos mine))
    · exact absurd (has.symm.trans (mine ▸ none_ pair read)) (some_ne_none own)

/-- A cvar that the patch names holds the patch's value, or is not set when the patch takes it
out. -/
theorem readCvar_named (orderly : CvarEntries entries) (settled : Settled existing) :
    readCvar language (mergeCvars language existing entries) name =
      if own.remove then none else some own.value := by
  obtain ⟨names, fulfilled⟩ := cvar_fulfilled language existing entries
  rw [readCvar_merged orderly]
  split
  · rename_i removed
    have taken : ¬ own.remove = false := by
      rw [removed]
      exact Bool.true_eq_false.mp
    have nothing : ∀ line ∈ cvarsMerged language existing entries,
        cvarGives language name (chomp line) = none := by
      refine fulfilled.edit.each (fun place line inside one there => ?_) (fun lower line made => ?_)
        fun _ _ inside => absurd inside not_mem_nil
      · rw [show (cvarPlan language entries).put place line = _ from
          cvarLines_put language entries line] at there
        exact (cvarLines_give quotable has (settled line (mem_ownLines inside)) one
          there).resolve_right fun given => taken given.1
      · exact (cvarAdded_gives quotable has orderly made).2 fun mine =>
          taken ((cvarAdded_gives quotable has orderly made).1 mine).1
    exact (silent_of_mem () fun line member _ => nothing line member).lastGiven_eq
  · rename_i kept
    refine fulfilled.lastGiven_eq (cvar_shows quotable has orderly settled
      (eq_false_of_ne_true kept)) ?_
    rw [cvarsWanted_find] at has
    unfold cvarPlan lastEntry
    dsimp only
    rw [has, bind_some, if_neg kept]
    rfl

end Named

end Cvars

end Geeboard.Games
