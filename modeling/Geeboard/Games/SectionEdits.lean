/-
This file is about the merge into an INI file as an edit of lines.

A key belongs to its section there, so what the merge is to do is a plan with the
sections as places: a line that assigns a wanted key of the section it is in gets
its value, and a wanted key that no line of its section assigns gets a line where
the section ends for the first time, or in a section that is begun at the end.

While the file is walked, the keys noted as written are those that lines assign or
that were added, and a section that was left has every key it is to have. So a key
is added once, and never for a section that is still to come.
-/

import Geeboard.Games.LineEdits

namespace Geeboard.Games

open Text List

/-! ### Lines that begin a section -/

/-- The section that a text begins behind its bracket. -/
def sectionAfter (rest : List Char) : Option (List Char) :=
  match rest.dropWhile fun char => char != ']' with
  | _ :: after =>
    if !(rest.takeWhile fun char => char != ']').isEmpty && after.all isSpace then
      some (rest.takeWhile fun char => char != ']')
    else none
  | [] => none

theorem iniHeader_bracket {line rest : List Char}
    (begins : line.dropWhile isSpace = '[' :: rest) : iniHeader line = sectionAfter rest := by
  unfold iniHeader
  rw [begins]
  rfl

theorem iniHeader_other {line : List Char}
    (begins : (line.dropWhile isSpace).head? ≠ some '[') : iniHeader line = none := by
  unfold iniHeader
  split
  · rename_i same
    rw [same] at begins
    exact absurd rfl begins
  · rfl

theorem sectionAfter_closed {name : List Char} (unclosed : ']' ∉ name) (after : List Char) :
    sectionAfter (name ++ ']' :: after) =
      if !name.isEmpty && after.all isSpace then some name else none := by
  have inside : ∀ char ∈ name, (char != ']') = true := fun _ member =>
    bne_iff_ne.mpr fun same => unclosed (same ▸ member)
  unfold sectionAfter
  rw [dropWhile_append_of_pos inside, takeWhile_append_of_pos inside,
    dropWhile_cons_of_neg (by decide), takeWhile_cons_of_neg (by decide),
    append_nil]

theorem sectionAfter_unclosed {rest : List Char} (unclosed : ']' ∉ rest) :
    sectionAfter rest = none := by
  have nothing : rest.dropWhile (fun char => char != ']') = [] :=
    dropWhile_eq_nil_iff.mpr fun char member =>
      bne_iff_ne.mpr fun same => unclosed (same ▸ member)
  unfold sectionAfter
  rw [nothing]

/-- Blanks at the end of a line take no part in what it begins. -/
theorem sectionAfter_append (rest : List Char) {blanks : List Char}
    (spaces : ∀ char ∈ blanks, isSpace char = true) :
    sectionAfter (rest ++ blanks) = sectionAfter rest := by
  have all : blanks.all isSpace = true := List.all_eq_true.mpr spaces
  by_cases closed_ : ']' ∈ rest
  · obtain ⟨name, after, rfl, unclosed⟩ := eq_append_cons_of_mem closed_
    rw [append_assoc, cons_append, sectionAfter_closed unclosed,
      sectionAfter_closed unclosed, all_append, all, Bool.and_true]
  · rw [sectionAfter_unclosed closed_, sectionAfter_unclosed]
    intro inside
    obtain there | blank := mem_append.mp inside
    · exact closed_ there
    · exact absurd (spaces _ blank) (by decide)

/-- The blanks around a sign take no part in whether a line begins a section. -/
theorem sectionAfter_signed {name before after value : List Char}
    (blanks : ∀ char ∈ before, isSpace char = true) (more : ∀ char ∈ after, isSpace char = true)
    (bare : sectionAfter (name ++ '=' :: value) = none) :
    sectionAfter (name ++ (before ++ '=' :: (after ++ value))) = none := by
  have sign : isSpace '=' = false := by decide
  have front : ']' ∉ before := fun inside => absurd (blanks _ inside) (by decide)
  have back : ']' ∉ after := fun inside => absurd (more _ inside) (by decide)
  by_cases early : ']' ∈ name
  · obtain ⟨name, rest, rfl, unclosed⟩ := eq_append_cons_of_mem early
    rw [append_assoc, cons_append, sectionAfter_closed unclosed, all_append,
      all_append, all_cons, sign, Bool.false_and, Bool.and_false, Bool.and_false,
      Bool.and_false]
    rfl
  · by_cases late : ']' ∈ value
    · obtain ⟨value, rest, rfl, unclosed⟩ := eq_append_cons_of_mem late
      have one : ']' ∉ name ++ '=' :: value := by
        simp only [mem_append, mem_cons, not_or]
        exact ⟨early, by decide, unclosed⟩
      have other : ']' ∉ name ++ (before ++ '=' :: (after ++ value)) := by
        simp only [mem_append, mem_cons, not_or]
        exact ⟨early, front, by decide, back, unclosed⟩
      have ends := sectionAfter_closed one rest
      rw [append_assoc, cons_append, bare] at ends
      have whole := sectionAfter_closed other rest
      rw [append_assoc, append_assoc, cons_append, append_assoc] at whole
      have some_ : (name ++ '=' :: value).isEmpty = false := isEmpty_eq_false_iff.mpr
        (append_ne_nil_of_right_ne_nil _ (cons_ne_nil _ _))
      cases blank : rest.all isSpace with
      | true =>
        rw [some_, blank] at ends
        cases ends
      | false =>
        rw [whole, blank, Bool.and_false]
        rfl
    · refine sectionAfter_unclosed ?_
      simp only [mem_append, mem_cons, not_or]
      exact ⟨early, front, by decide, back, late⟩

/-- A value that makes no beginning of a section out of the bare assignment makes none out of the
line it is put on. -/
theorem iniHeader_name {indent key before after value : List Char}
    (spaces : ∀ char ∈ indent, isSpace char = true) (fits : IniName key)
    (blanks : ∀ char ∈ before, isSpace char = true) (more : ∀ char ∈ after, isSpace char = true)
    (bare : iniHeader (assignment (key, value)) = none) :
    iniHeader (indent ++ (key ++ (before ++ '=' :: (after ++ value)))) = none := by
  obtain ⟨first, name, rfl, solid, -⟩ := fits.cons
  have begins := (@dropWhile_indent_iniName indent (first :: name)
    (before ++ '=' :: (after ++ value)) spaces fits).1
  by_cases bracket : first = '['
  · subst bracket
    have alone : iniHeader (assignment ('[' :: name, value)) = sectionAfter (name ++ '=' :: value) :=
      iniHeader_bracket (dropWhile_cons_of_neg (by decide))
    rw [iniHeader_bracket begins]
    exact sectionAfter_signed blanks more (alone.symm.trans bare)
  · refine iniHeader_other ?_
    rw [begins, cons_append, head?_cons]
    exact fun same => bracket (Option.some.inj same)

/-- The carriage return that goes with a break takes no part in what a line begins. -/
theorem iniHeader_chomp (line : Line) : iniHeader (chomp line) = iniHeader line := by
  have return_ : ∀ char ∈ ['\r'], isSpace char = true := forall_mem_singleton.mpr (by decide)
  obtain same | same := chomp_cases line
  · rw [same]
  · generalize chomp line = text at same ⊢
    subst same
    cases begins : text.dropWhile isSpace with
    | nil =>
      have all : ∀ char ∈ text, isSpace char = true := dropWhile_eq_nil_iff.mp begins
      have whole : (text ++ ['\r']).dropWhile isSpace = [] := by
        rw [dropWhile_append_of_pos all]
        exact dropWhile_eq_nil_iff.mpr return_
      rw [iniHeader_other, iniHeader_other]
      · rw [whole]
        exact nofun
      · rw [begins]
        exact nofun
    | cons char rest =>
      have whole : (text ++ ['\r']).dropWhile isSpace = char :: (rest ++ ['\r']) := by
        rw [dropWhile_append, begins]
        rfl
      by_cases bracket : char = '['
      · subst bracket
        rw [iniHeader_bracket begins, iniHeader_bracket whole, sectionAfter_append rest return_]
      · rw [iniHeader_other, iniHeader_other]
        · rw [whole]
          exact fun same => bracket (Option.some.inj same)
        · rw [begins]
          exact fun same => bracket (Option.some.inj same)

/-! ### What a merge is to do -/

/-- The entry that holds for a key of a section. -/
def iniEntry (entries : List Entry) (key : List Char × List Char) : Option Entry :=
  lastEntry entries fun entry => entry.section_ == key.1 && entry.key == key.2

/-- What a merge into an INI file is to do. -/
def iniPlan (entries : List Entry) : Plan (List Char) (List Char × List Char) Line where
  start := []
  opens := iniHeader
  assigns := fun current line =>
    if (iniHeader line).isSome then none else (iniPair line).map fun pair => (current, pair.key)
  home := Prod.fst
  changed := fun key line => (iniPair line).bind fun pair =>
    (iniEntry entries key).map fun entry => [pair.rewritten entry.value]
  added := fun key => (iniEntry entries key).map fun entry => key.2 ++ '=' :: entry.value
  opening := fun lines section_ =>
    (if lines.getLast?.any fun line => !line.isEmpty then [[]] else []) ++
      ['[' :: section_ ++ [']']]

/-- What a merge into an INI file may be asked to write: sections that a line can begin, keys that
stand before a sign, and values of a single line that make no beginning of a section out of their
assignment. -/
structure IniWish (entries : List Entry) : Prop where
  sections : ∀ entry ∈ entries, ']' ∉ entry.section_ ∧ '\n' ∉ entry.section_
  keys : ∀ entry ∈ entries, IniName entry.key
  values : ∀ entry ∈ entries, entry.value.all isPlain = true
  bare : ∀ entry ∈ entries, iniHeader (assignment (entry.key, entry.value)) = none

/-- Sections that a line can begin, keys that stand before a sign, and values that neither break a
line nor make a beginning of a section out of their assignment. -/
structure IniEntries (entries : List Entry) : Prop where
  sections : ∀ entry ∈ entries, ']' ∉ entry.section_ ∧ '\n' ∉ entry.section_
  keys : ∀ entry ∈ entries, IniName entry.key
  values : ∀ entry ∈ entries, '\n' ∉ entry.value
  bare : ∀ entry ∈ entries, iniHeader (assignment (entry.key, entry.value)) = none

theorem IniWish.orderly {entries : List Entry} (wish : IniWish entries) : IniEntries entries :=
  ⟨wish.sections, wish.keys, fun entry inside => clean_of_plain (wish.values entry inside),
    wish.bare⟩

/-- Keys that no line beginning a section is taken for. -/
theorem iniEntries_of_keys {entries : List Entry}
    (sections : ∀ entry ∈ entries, ']' ∉ entry.section_ ∧ '\n' ∉ entry.section_)
    (keys : ∀ entry ∈ entries, IniKey entry.key) (values : ∀ entry ∈ entries, '\n' ∉ entry.value) :
    IniEntries entries :=
  ⟨sections, fun entry inside => (keys entry inside).name, values, fun entry inside =>
    @iniHeader_key [] entry.key _ (fun _ member => absurd member not_mem_nil) (keys entry inside)⟩

section Lines

variable {entries : List Entry} {key : List Char × List Char} {current : List Char}

/-- The value that a key of a section is to have. -/
theorem iniEntry_value (entries : List Entry) (key : List Char × List Char) :
    (iniEntry entries key).map Entry.value =
      ((iniWanted entries).get key.1).bind fun keys => keys.get key.2 :=
  (iniWanted_find entries key.1 key.2).symm

theorem mem_of_iniEntry {entry : Entry} (last : iniEntry entries key = some entry) :
    entry ∈ entries ∧ entry.section_ = key.1 ∧ entry.key = key.2 := by
  obtain ⟨inside, about⟩ := mem_of_lastEntry last
  obtain ⟨block, own⟩ := Bool.and_eq_true_iff.mp about
  exact ⟨inside, beq_iff_eq.mp block, beq_iff_eq.mp own⟩

theorem ini_put_header {line : Line} {section_ : List Char}
    (header : iniHeader line = some section_) : (iniPlan entries).put current line = [line] := by
  refine Plan.put_of_unchanged fun key assigned => ?_
  unfold iniPlan at assigned
  dsimp only at assigned
  rw [header] at assigned
  cases assigned

theorem ini_assigns {line : Line} (header : iniHeader line = none) :
    (iniPlan entries).assigns current line =
      (iniPair line).map fun pair => (current, pair.key) := by
  unfold iniPlan
  dsimp only
  rw [header]
  rfl

theorem ini_put_other {line : Line} (header : iniHeader line = none)
    (other : ∀ pair, iniPair line = some pair → iniEntry entries (current, pair.key) = none) :
    (iniPlan entries).put current line = [line] := by
  refine Plan.put_of_unchanged fun key assigned => ?_
  rw [ini_assigns header] at assigned
  obtain ⟨pair, read, rfl⟩ := Option.map_eq_some_iff.mp assigned
  unfold iniPlan
  dsimp only
  rw [read, Option.bind_some, other pair read]
  rfl

theorem ini_put_wanted {line : Line} {pair : Pair} {entry : Entry}
    (header : iniHeader line = none) (read : iniPair line = some pair)
    (last : iniEntry entries (current, pair.key) = some entry) :
    (iniPlan entries).put current line = [pair.rewritten entry.value] := by
  have assigned : (iniPlan entries).assigns current line = some (current, pair.key) := by
    rw [ini_assigns header, read]
    rfl
  refine Plan.put_of_changed assigned ?_
  unfold iniPlan
  dsimp only
  rw [read, Option.bind_some, last]
  rfl

/-- A line with a wanted value in it begins no section. -/
theorem iniHeader_rewritten {line : Line} {pair : Pair} {value : List Char}
    (read : iniPair line = some pair) (fits : IniName pair.key)
    (bare : iniHeader (assignment (pair.key, value)) = none) :
    iniHeader (pair.rewritten value) = none := by
  obtain ⟨-, indent, before, after, same, blanks, more⟩ := iniPair_makes read
  unfold Pair.rewritten
  rw [same, append_assoc, append_assoc, append_assoc, cons_append]
  exact iniHeader_name indent fits blanks more bare

end Lines

/-! ### The walk through the file -/

/-- A section that the lines have begun; the first one is there without a line. -/
def Visited (walked : List Line) (section_ : List Char) : Prop :=
  section_ = [] ∨ section_ ∈ walked.filterMap iniHeader

/-- A key that is noted as written. -/
def IniMerge.Notes (merge : IniMerge) (key : List Char × List Char) : Prop :=
  key.2 ∈ (merge.written.get key.1).getD []

/-- A section that has got every key it is to have. -/
def IniMerge.Done (wanted : IniWanted) (merge : IniMerge) (section_ : List Char) : Prop :=
  ∀ keys, wanted.get section_ = some keys → merge.written.has section_ = true ∧
    ∀ entry ∈ keys.entries, merge.Notes (section_, entry.1)

/-- How far a merge has come as an edit of the lines walked: where it is, what is noted as written,
that the sections left are done, and that a key was added to a section that was begun, and for a
key assigned later only where its section was begun again. -/
structure IniMerge.Tracks (entries : List Entry) (merge : IniMerge) (walked : List Line)
    (keys : List (List Char × List Char)) : Prop where
  edit : (iniPlan entries).Edit walked merge.out keys []
  out : (iniPlan entries).walk merge.out = merge.current
  current : (iniPlan entries).walk walked = merge.current
  notes : ∀ key, (iniEntry entries key).isSome = true →
    (merge.Notes key ↔ (iniPlan entries).Assigned walked key ∨ key ∈ keys)
  visited : ∀ section_, merge.written.has section_ = true → Visited walked section_
  begun : Visited walked merge.current
  own : ∀ key ∈ keys, Visited walked key.1
  left : ∀ section_, Visited walked section_ → section_ ≠ merge.current →
    merge.Done (iniWanted entries) section_
  sparing : ∀ key ∈ keys, (iniPlan entries).Assigned walked key →
    2 ≤ (walked.filterMap iniHeader).count key.1

/-- The sections that are wanted are those of the entries. -/
theorem iniWanted_names {entries : List Entry}
    {block : List Char × Record (List Char) (List Char)}
    (member : block ∈ (iniWanted entries).entries) :
    ∃ entry ∈ entries, entry.section_ = block.1 := by
  revert block
  unfold iniWanted
  refine List.foldlRecOn (motive := fun wanted : IniWanted => ∀ {block}, block ∈ wanted.entries →
    ∃ entry ∈ entries, entry.section_ = block.1) entries _ ?_ ?_
  · intro block member
    exact absurd member not_mem_nil
  · intro wanted named entry there block member
    rcases Record.mem_setEntries member with rfl | before
    · exact ⟨entry, there, rfl⟩
    · exact named before

theorem has_set {Value : Type} (record : Record (List Char) Value) {name other : List Char}
    (value : Value) (has : record.has name = true) : (record.set other value).has name = true := by
  unfold Record.has at has ⊢
  rw [Record.get_set]
  split
  · rfl
  · exact has

theorem has_set_self {Value : Type} (record : Record (List Char) Value) (name : List Char)
    (value : Value) : (record.set name value).has name = true := by
  unfold Record.has
  rw [Record.get_set_self]
  rfl

section Walk

variable {entries : List Entry} {merge : IniMerge} {walked : List Line}
  {keys : List (List Char × List Char)}

variable {section_ : List Char} {block : Record (List Char) (List Char)}

theorem notes_set {out : List Line} {now : List Char} {names : List (List Char)}
    {key : List Char × List Char} :
    IniMerge.Notes ⟨out, merge.written.set section_ names, now⟩ key ↔
      if section_ = key.1 then key.2 ∈ names else merge.Notes key := by
  unfold IniMerge.Notes
  dsimp only
  rw [Record.get_set]
  by_cases here : section_ = key.1
  · rw [if_pos here, if_pos here]
    rfl
  · rw [if_neg here, if_neg here]

theorem iniEntry_of_keys (has : (iniWanted entries).get section_ = some block)
    {entry : List Char × List Char} (inside : entry ∈ block.entries) :
    ∃ last, iniEntry entries (section_, entry.1) = some last ∧ last.value = entry.2 := by
  have value := iniEntry_value entries (section_, entry.1)
  dsimp only at value
  rw [has, Option.bind_some, Record.get_of_mem inside] at value
  exact Option.map_eq_some_iff.mp value

theorem keys_of_iniEntry {key : List Char × List Char} {entry : Entry}
    (last : iniEntry entries key = some entry) :
    ∃ block, (iniWanted entries).get key.1 = some block ∧ (key.2, entry.value) ∈ block.entries := by
  have value := iniEntry_value entries key
  rw [last, Option.map_some] at value
  obtain ⟨block, has, asked⟩ := Option.bind_eq_some_iff.mp value.symm
  exact ⟨block, has, Record.mem_of_get asked⟩

/-- An added line of a section begins none. -/
theorem IniEntries.quiet (orderly : IniEntries entries)
    (has : (iniWanted entries).get section_ = some block) {entry : List Char × List Char}
    (inside : entry ∈ block.entries) : iniHeader (assignment entry) = none := by
  obtain ⟨last, found, value⟩ := iniEntry_of_keys has inside
  obtain ⟨member, -, key⟩ := mem_of_iniEntry found
  have bare := orderly.bare last member
  rwa [key, value] at bare

theorem iniPlan_added (has : (iniWanted entries).get section_ = some block)
    {entry : List Char × List Char} (inside : entry ∈ block.entries) :
    (iniPlan entries).added (section_, entry.1) = some (assignment entry) := by
  obtain ⟨last, found, value⟩ := iniEntry_of_keys has inside
  unfold iniPlan
  dsimp only
  rw [found, Option.map_some, value]
  rfl

/-- Lines added for keys that the section has not got. -/
theorem ini_edit_add (orderly : IniEntries entries) {before after : List Line}
    {places : List (List Char)} (edit : (iniPlan entries).Edit before after keys places)
    (has : (iniWanted entries).get section_ = some block)
    (home : (iniPlan entries).walk after = section_) {missing : List (List Char × List Char)}
    (some_ : missing.Sublist block.entries) (new : ∀ entry ∈ missing, (section_, entry.1) ∉ keys) :
    (iniPlan entries).Edit before (after ++ missing.map assignment)
      (keys ++ missing.map fun entry => (section_, entry.1)) places := by
  have added := @Plan.Edit.add _ _ _ (iniPlan entries) before after keys places
    (missing.map fun entry => ((section_, entry.1), assignment entry)) edit
  rw [List.map_map, List.map_map, List.forall_mem_map, List.forall_mem_map, List.forall_mem_map,
    List.forall_mem_map] at added
  refine added (fun entry inside => iniPlan_added has (some_.subset inside))
    (fun entry inside => orderly.quiet has (some_.subset inside)) (fun _ _ => home.symm) ?_ new
  have distinct := block.distinct.sublist (some_.map Prod.fst)
  refine Nodup.of_map Prod.snd ?_
  rw [List.map_map]
  exact distinct

/-- What is noted when more keys of the section are. -/
theorem notes_more {out : List Line} {names : List (List Char)} {key : List Char × List Char} :
    IniMerge.Notes ⟨out, merge.written.set merge.current
        ((merge.written.get merge.current).getD [] ++ names), merge.current⟩ key ↔
      merge.Notes key ∨ key.1 = merge.current ∧ key.2 ∈ names := by
  rw [notes_set]
  by_cases here : merge.current = key.1
  · rw [if_pos here, mem_append, here]
    refine or_congr_right ⟨fun inside => ⟨rfl, inside⟩, fun both => both.2⟩
  · rw [if_neg here]
    refine (or_iff_left ?_).symm
    exact fun both => here both.1.symm

theorem has_of_set {Value : Type} {record : Record (List Char) Value} {name other : List Char}
    {value : Value} (has : (record.set name value).has other = true) :
    record.has other = true ∨ other = name := by
  unfold Record.has at has ⊢
  rw [Record.get_set] at has
  split at has
  · rename_i same
    exact Or.inr same.symm
  · exact Or.inl has

theorem done_of_notes {wanted : IniWanted} {later : IniMerge} (done : merge.Done wanted section_)
    (has : merge.written.has section_ = true → later.written.has section_ = true)
    (notes : ∀ key, merge.Notes key → later.Notes key) : later.Done wanted section_ := by
  intro block asked
  obtain ⟨there, each⟩ := done block asked
  exact ⟨has there, fun entry inside => notes _ (each entry inside)⟩

/-- The section that was left last gets what it has not got yet. -/
theorem IniMerge.Tracks.flush (orderly : IniEntries entries) (tracks : merge.Tracks entries walked keys) :
    ∃ more, (merge.flush (iniWanted entries)).Tracks entries walked more ∧
      (merge.flush (iniWanted entries)).current = merge.current ∧
      ∀ section_, Visited walked section_ →
        (merge.flush (iniWanted entries)).Done (iniWanted entries) section_ := by
  unfold IniMerge.flush
  cases has : (iniWanted entries).get merge.current with
  | none =>
    refine ⟨keys, tracks, rfl, fun section_ there => ?_⟩
    by_cases here : section_ = merge.current
    · intro block has_
      rw [here, has] at has_
      cases has_
    · exact tracks.left section_ there here
  | some block =>
    dsimp only
    have within : ∀ entry, entry ∈ block.entries.filter (fun entry =>
        !((merge.written.get merge.current).getD []).contains entry.1) ↔
          entry ∈ block.entries ∧ ¬ merge.Notes (merge.current, entry.1) := by
      intro entry
      rw [mem_filter, Bool.not_eq_true', ← Bool.not_eq_true, contains_iff_mem]
      rfl
    have some_ : (block.entries.filter fun entry =>
        !((merge.written.get merge.current).getD []).contains entry.1).Sublist block.entries :=
      filter_sublist
    generalize block.entries.filter (fun entry =>
        !((merge.written.get merge.current).getD []).contains entry.1) = missing at within some_ ⊢
    have fresh : ∀ entry ∈ missing, ¬ ((iniPlan entries).Assigned walked (merge.current, entry.1) ∨
        (merge.current, entry.1) ∈ keys) := by
      intro entry inside assigned
      obtain ⟨member, unnoted⟩ := (within entry).mp inside
      obtain ⟨last, found, -⟩ := iniEntry_of_keys has member
      exact unnoted ((tracks.notes _ (found ▸ rfl)).mpr assigned)
    have kept : ∀ section_, merge.written.has section_ = true →
        (merge.written.set merge.current ((merge.written.get merge.current).getD [] ++
          missing.map Prod.fst)).has section_ = true := fun _ there => has_set _ _ there
    have noted : ∀ key, (key ∈ missing.map fun entry => (merge.current, entry.1)) ↔
        key.1 = merge.current ∧ key.2 ∈ missing.map Prod.fst := by
      intro key
      constructor
      · intro inside
        obtain ⟨entry, there, rfl⟩ := List.mem_map.mp inside
        exact ⟨rfl, List.mem_map_of_mem there⟩
      · rintro ⟨here, inside⟩
        obtain ⟨entry, there, same⟩ := List.mem_map.mp inside
        exact List.mem_map.mpr ⟨entry, there, Prod.ext here.symm same⟩
    have edit := ini_edit_add orderly tracks.edit has tracks.out some_ fun entry inside there =>
      fresh entry inside (Or.inr there)
    have done : ∀ section_, Visited walked section_ → IniMerge.Done (iniWanted entries)
        ⟨merge.out ++ missing.map assignment, merge.written.set merge.current
          ((merge.written.get merge.current).getD [] ++ missing.map Prod.fst), merge.current⟩
        section_ := by
      intro section_ there
      by_cases here : section_ = merge.current
      · intro asked has_
        rw [here, has] at has_
        obtain rfl := Option.some.inj has_
        refine ⟨here ▸ has_set_self _ _ _, fun entry inside => notes_more.mpr ?_⟩
        by_cases already : merge.Notes (section_, entry.1)
        · exact Or.inl already
        · refine Or.inr ⟨here, List.mem_map_of_mem ((within entry).mpr ⟨inside, ?_⟩)⟩
          rwa [here] at already
      · exact done_of_notes (tracks.left section_ there here) (kept section_) fun key noted =>
          notes_more.mpr (Or.inl noted)
    refine ⟨_, ⟨edit, ?_, tracks.current, fun key asked => ?_, fun section_ there => ?_,
      tracks.begun, fun key inside => ?_, fun section_ there _ => done section_ there,
      fun key inside assigned => ?_⟩, rfl, done⟩
    · rw [Plan.walk_append, Plan.foldl_next_quiet, tracks.out]
      intro line inside
      obtain ⟨entry, there, rfl⟩ := List.mem_map.mp inside
      exact orderly.quiet has (some_.subset there)
    · rw [notes_more, tracks.notes key asked, mem_append, noted key, or_assoc]
    · obtain old | new := has_of_set there
      · exact tracks.visited section_ old
      · exact new ▸ tracks.begun
    · obtain there | new := mem_append.mp inside
      · exact tracks.own key there
      · rw [((noted key).mp new).1]
        exact tracks.begun
    · obtain there | new := mem_append.mp inside
      · exact tracks.sparing key there assigned
      · obtain ⟨entry, member, rfl⟩ := List.mem_map.mp new
        exact absurd (Or.inl assigned) (fresh entry member)

theorem Visited.more {section_ : List Char} (there : Visited walked section_) (line : Line) :
    Visited (walked ++ [line]) section_ := by
  refine there.imp_right fun inside => ?_
  rw [filterMap_append]
  exact mem_append_left _ inside

theorem count_more (line : Line) (section_ : List Char) :
    (walked.filterMap iniHeader).count section_ ≤
      ((walked ++ [line]).filterMap iniHeader).count section_ := by
  rw [filterMap_append, count_append]
  exact Nat.le_add_right _ _

/-- A line that begins no section, with what is put for it. -/
theorem IniMerge.Tracks.stay (tracks : merge.Tracks entries walked keys)
    (again : ∀ key ∈ keys, key.1 = merge.current → 2 ≤ (walked.filterMap iniHeader).count key.1)
    {line : Line} (header : iniHeader line = none)
    (quiet : ∀ one ∈ (iniPlan entries).put merge.current line, iniHeader one = none)
    {later : IniMerge} (out : later.out = merge.out ++ (iniPlan entries).put merge.current line)
    (here : later.current = merge.current)
    (notes : ∀ key, (iniEntry entries key).isSome = true → (later.Notes key ↔
      merge.Notes key ∨ (iniPlan entries).assigns merge.current line = some key))
    (kept : ∀ key, merge.Notes key → later.Notes key)
    (has : ∀ section_, merge.written.has section_ = true → later.written.has section_ = true)
    (only_ : ∀ section_, later.written.has section_ = true →
      merge.written.has section_ = true ∨ section_ = merge.current) :
    later.Tracks entries (walked ++ [line]) keys ∧ ∀ key ∈ keys, key.1 = later.current →
      2 ≤ ((walked ++ [line]).filterMap iniHeader).count key.1 := by
  have same : (walked ++ [line]).filterMap iniHeader = walked.filterMap iniHeader := by
    rw [filterMap_append, filterMap_cons_none header, filterMap_nil, append_nil]
  have stays : ∀ place, (iniPlan entries).next place line = place := by
    intro place
    show (iniHeader line).getD place = place
    rw [header]
    rfl
  have visits : ∀ section_, Visited (walked ++ [line]) section_ ↔ Visited walked section_ := by
    intro section_
    unfold Visited
    rw [same]
  have edit := tracks.edit.kept line (tracks.out.trans tracks.current.symm)
  rw [tracks.current, ← out] at edit
  refine ⟨⟨edit, ?_, ?_, fun key asked => ?_, fun section_ there => ?_, ?_, fun key inside => ?_,
    fun section_ there other => ?_, fun key inside assigned => ?_⟩, fun key inside at_ => ?_⟩
  · rw [out, Plan.walk_append, Plan.foldl_next_quiet _ quiet, tracks.out, here]
  · rw [Plan.walk_append, foldl_cons, stays, here]
    exact tracks.current
  · rw [notes key asked, tracks.notes key asked, Plan.assigned_concat, tracks.current, or_right_comm]
  · obtain old | new := only_ section_ there
    · exact (visits _).mpr (tracks.visited section_ old)
    · exact new ▸ (visits _).mpr tracks.begun
  · exact here ▸ (visits _).mpr tracks.begun
  · exact (visits _).mpr (tracks.own key inside)
  · exact done_of_notes (tracks.left section_ ((visits _).mp there) (here ▸ other))
      (has section_) kept
  · rw [same]
    obtain before | now := Plan.assigned_concat.mp assigned
    · exact tracks.sparing key inside before
    · rw [tracks.current, ini_assigns header] at now
      obtain ⟨pair, -, rfl⟩ := Option.map_eq_some_iff.mp now
      exact again _ inside rfl
  · rw [same]
    exact again key inside (at_.trans here)

theorem ne_nil_of_iniHeader {line : Line} (header : iniHeader line = some section_) :
    section_ ≠ [] := by
  rintro rfl
  unfold iniHeader at header
  split at header
  · dsimp only at header
    split at header
    · split at header
      · rename_i both
        rw [Option.some.inj header] at both
        cases both
      · cases header
    · cases header
  · cases header

/-- A line that begins a section, behind what the section before it was to get. -/
theorem IniMerge.Tracks.turn (tracks : merge.Tracks entries walked keys)
    (done : ∀ section_, Visited walked section_ → merge.Done (iniWanted entries) section_)
    {line : Line} (header : iniHeader line = some section_) :
    IniMerge.Tracks entries ⟨merge.out ++ [line], merge.written, section_⟩ (walked ++ [line]) keys ∧
      ∀ key ∈ keys, key.1 = section_ →
        2 ≤ ((walked ++ [line]).filterMap iniHeader).count key.1 := by
  have same : (walked ++ [line]).filterMap iniHeader =
      walked.filterMap iniHeader ++ [section_] := by
    rw [filterMap_append, filterMap_cons_some header, filterMap_nil]
  have turns : ∀ place, (iniPlan entries).next place line = section_ := by
    intro place
    show (iniHeader line).getD place = section_
    rw [header]
    rfl
  have nothing : ∀ place key, (iniPlan entries).assigns place line ≠ some key := by
    intro place key assigned
    unfold iniPlan at assigned
    dsimp only at assigned
    rw [header] at assigned
    cases assigned
  have assigned : ∀ key, (iniPlan entries).Assigned (walked ++ [line]) key ↔
      (iniPlan entries).Assigned walked key := fun key =>
    Plan.assigned_concat.trans (or_iff_left (nothing _ key))
  have edit := tracks.edit.kept line (tracks.out.trans tracks.current.symm)
  rw [ini_put_header header] at edit
  refine ⟨⟨edit, ?_, ?_, fun key asked => ?_, fun other there => (tracks.visited other there).more line,
    Or.inr ?_, fun key inside => (tracks.own key inside).more line, fun other there different => ?_,
    fun key inside before => ?_⟩, fun key inside at_ => ?_⟩
  · rw [Plan.walk_append, foldl_cons, turns]
    rfl
  · rw [Plan.walk_append, foldl_cons, turns]
    rfl
  · rw [assigned]
    exact tracks.notes key asked
  · rw [same]
    exact mem_append_right _ mem_cons_self
  · refine done other (there.imp_right fun inside => ?_)
    rw [same] at inside
    exact (mem_append.mp inside).resolve_right fun last =>
      different (mem_singleton.mp last)
  · exact (tracks.sparing key inside ((assigned key).mp before)).trans (count_more line key.1)
  · have early : key.1 ∈ walked.filterMap iniHeader :=
      (tracks.own key inside).resolve_left fun empty =>
        ne_nil_of_iniHeader header (at_ ▸ empty)
    rw [same, count_append, at_, count_singleton_self]
    rw [at_] at early
    exact Nat.succ_le_succ (count_pos_iff.mpr early)

/-- Each line of the file takes the merge on as an edit. -/
theorem IniMerge.Tracks.line (orderly : IniEntries entries) (tracks : merge.Tracks entries walked keys)
    (again : ∀ key ∈ keys, key.1 = merge.current → 2 ≤ (walked.filterMap iniHeader).count key.1)
    (line : Line) :
    ∃ more, (merge.line (iniWanted entries) line).Tracks entries (walked ++ [line]) more ∧
      ∀ key ∈ more, key.1 = (merge.line (iniWanted entries) line).current →
        2 ≤ ((walked ++ [line]).filterMap iniHeader).count key.1 := by
  cases header : iniHeader line with
  | some section_ =>
    obtain ⟨more, flushed, -, done⟩ := tracks.flush orderly
    unfold IniMerge.line
    rw [header]
    exact ⟨more, flushed.turn done header⟩
  | none =>
    have left : ∀ later, later = (⟨merge.out ++ [line], merge.written, merge.current⟩ : IniMerge) →
        (∀ pair, iniPair line = some pair → iniEntry entries (merge.current, pair.key) = none) →
        later.Tracks entries (walked ++ [line]) keys ∧ ∀ key ∈ keys, key.1 = later.current →
          2 ≤ ((walked ++ [line]).filterMap iniHeader).count key.1 := by
      rintro _ rfl other
      have put := @ini_put_other entries merge.current line header other
      refine tracks.stay again header ?_ (congrArg (merge.out ++ ·) put.symm) rfl (fun key asked => ?_)
        (fun _ noted => noted) (fun _ there => there) fun _ there => Or.inl there
      · rw [put]
        exact forall_mem_singleton.mpr header
      · refine (or_iff_left fun assigned => ?_).symm
        rw [ini_assigns header] at assigned
        obtain ⟨pair, read, rfl⟩ := Option.map_eq_some_iff.mp assigned
        rw [other pair read] at asked
        cases asked
    refine ⟨keys, ?_⟩
    unfold IniMerge.line
    rw [header]
    dsimp only
    cases read : iniPair line with
    | none => exact left _ rfl fun pair same => nomatch read.symm.trans same
    | some pair =>
      have value := iniEntry_value entries (merge.current, pair.key)
      dsimp only at value ⊢
      cases last : iniEntry entries (merge.current, pair.key) with
      | none =>
        rw [last, Option.map_none] at value
        rw [← value]
        refine left _ rfl fun other same => ?_
        rw [read] at same
        rw [← Option.some.inj same, last]
      | some entry =>
        rw [last, Option.map_some] at value
        rw [← value]
        dsimp only
        have put := ini_put_wanted header read last
        obtain ⟨inside, -, own⟩ := mem_of_iniEntry last
        have fits := orderly.keys entry inside
        have bare := orderly.bare entry inside
        rw [show entry.key = pair.key from own] at fits bare
        refine tracks.stay again header ?_ (congrArg (merge.out ++ ·) put.symm) rfl (fun key _ => ?_)
          (fun key noted => notes_more.mpr (Or.inl noted)) (fun _ there => has_set _ _ there)
          fun section_ there => has_of_set there
        · rw [put]
          exact forall_mem_singleton.mpr (iniHeader_rewritten read fits bare)
        · rw [notes_more, mem_singleton, ini_assigns header, read, Option.map_some,
            Option.some_inj, Prod.ext_iff]
          exact or_congr_right (and_congr eq_comm eq_comm)

theorem tracks_start (entries : List Entry) :
    IniMerge.Tracks entries ⟨[], .empty, []⟩ [] [] where
  edit := .start
  out := rfl
  current := rfl
  notes key _ := ⟨fun noted => absurd noted not_mem_nil, fun either =>
    either.elim (fun assigned => absurd assigned (Plan.not_assigned_nil key))
      fun inside => absurd inside not_mem_nil⟩
  visited _ has := Bool.noConfusion has
  begun := Or.inl rfl
  own _ inside := absurd inside not_mem_nil
  left _ there other := there.elim (fun empty => absurd empty other)
    fun inside => absurd inside not_mem_nil
  sparing _ inside := absurd inside not_mem_nil

/-- The whole file walked as an edit. -/
theorem tracks_walked (orderly : IniEntries entries) (lines : List Line) :
    ∃ keys, IniMerge.Tracks entries
      ((lines.foldl (IniMerge.line (iniWanted entries)) ⟨[], .empty, []⟩).flush (iniWanted entries))
      lines keys ∧ ∀ section_, Visited lines section_ → IniMerge.Done (iniWanted entries)
        ((lines.foldl (IniMerge.line (iniWanted entries)) ⟨[], .empty, []⟩).flush
          (iniWanted entries)) section_ := by
  have run : ∃ keys, IniMerge.Tracks entries
      (lines.foldl (IniMerge.line (iniWanted entries)) ⟨[], .empty, []⟩) lines keys ∧
      ∀ key ∈ keys, key.1 =
        (lines.foldl (IniMerge.line (iniWanted entries)) ⟨[], .empty, []⟩).current →
          2 ≤ (lines.filterMap iniHeader).count key.1 := by
    induction lines using List.reverseRecOn with
    | nil => exact ⟨[], tracks_start entries, fun _ inside => absurd inside not_mem_nil⟩
    | append_singleton lines line inductionHypothesis =>
      obtain ⟨keys, tracks, again⟩ := inductionHypothesis
      rw [foldl_append]
      exact tracks.line orderly again line
  obtain ⟨keys, tracks, -⟩ := run
  obtain ⟨more, flushed, -, done⟩ := tracks.flush orderly
  exact ⟨more, flushed, done⟩

end Walk

/-! ### The sections that were not there -/

section Sections

variable {entries : List Entry} {walked : List Line} {keys : List (List Char × List Char)}

theorem addSection_eq {written : Record (List Char) (List (List Char))} (out : List Line)
    (block : List Char × Record (List Char) (List Char)) (new : written.has block.1 = false) :
    addSection written out block =
      out ++ (iniPlan entries).opening out block.1 ++ block.2.entries.map assignment := by
  unfold addSection iniPlan
  rw [if_neg (Bool.eq_false_iff.mp new)]
  dsimp only
  split
  · simp only [append_assoc, cons_append, nil_append]
  · simp only [append_assoc, cons_append, nil_append]

theorem walk_opening {out : List Line} {section_ : List Char} (some_ : section_ ≠ [])
    (fits : ']' ∉ section_) :
    (iniPlan entries).walk (out ++ (iniPlan entries).opening out section_) = section_ := by
  have gap : ∀ place, (if out.getLast?.any (fun line => !List.isEmpty line) then [[]]
      else []).foldl (iniPlan entries).next place = place := by
    intro place
    split
    · rfl
    · rfl
  have turn : (iniPlan entries).opens ('[' :: section_ ++ [']']) = some section_ :=
    iniHeader_made some_ fits
  rw [Plan.walk_append]
  show ((if out.getLast?.any (fun line => !List.isEmpty line) then [[]] else []) ++
    ['[' :: section_ ++ [']']]).foldl (iniPlan entries).next _ = section_
  rw [foldl_append, gap, foldl_cons]
  unfold Plan.next
  rw [turn]
  rfl

theorem visited_walk (lines : List Line) : Visited lines ((iniPlan entries).walk lines) := by
  induction lines using List.reverseRecOn with
  | nil => exact Or.inl rfl
  | append_singleton lines line inductionHypothesis =>
    rw [Plan.walk_append, foldl_cons]
    show Visited _ ((iniHeader line).getD _)
    cases header : iniHeader line with
    | none => exact inductionHypothesis.more line
    | some section_ =>
      refine Or.inr ?_
      rw [filterMap_append, filterMap_cons_some header]
      exact mem_append_right _ mem_cons_self

/-- A key that a line assigns belongs to a section that was begun. -/
theorem visited_of_assigned {key : List Char × List Char}
    (assigned : (iniPlan entries).Assigned walked key) : Visited walked key.1 := by
  obtain ⟨front, line, back, rfl, here⟩ := assigned
  have home : key.1 = (iniPlan entries).walk front := by
    cases header : iniHeader line with
    | none =>
      rw [ini_assigns header] at here
      obtain ⟨pair, -, rfl⟩ := Option.map_eq_some_iff.mp here
      rfl
    | some section_ =>
      unfold iniPlan at here
      dsimp only at here
      rw [header] at here
      cases here
  rw [home]
  refine (visited_walk front).imp_right fun inside => ?_
  rw [filterMap_append]
  exact mem_append_left _ inside

/-- How far the sections that were not there have been added: those of the blocks that had not been
written are, with all their keys. -/
structure SectionsAdded (entries : List Entry) (walked : List Line)
    (written : Record (List Char) (List (List Char))) (keys : List (List Char × List Char))
    (blocks : List (List Char × Record (List Char) (List Char))) (out : List Line)
    (more : List (List Char × List Char)) (places : List (List Char)) : Prop where
  edit : (iniPlan entries).Edit walked out more places
  old : ∀ key ∈ keys, key ∈ more
  new : ∀ key ∈ more, key ∈ keys ∨ key.1 ∈ places
  places : ∀ place ∈ places, written.has place = false ∧ (∃ block ∈ blocks, block.1 = place) ∧
    ∃ key ∈ more, key.1 = place
  all : ∀ block ∈ blocks, written.has block.1 = false → ∀ entry ∈ block.2.entries,
    (block.1, entry.1) ∈ more

theorem SectionsAdded.step {written : Record (List Char) (List (List Char))}
    {blocks : List (List Char × Record (List Char) (List Char))} {out : List Line}
    {more : List (List Char × List Char)} {places : List (List Char)} (orderly : IniEntries entries)
    (added : SectionsAdded entries walked written keys blocks out more places)
    (visited : ∀ section_, Visited walked section_ →
      (iniWanted entries).has section_ = true → written.has section_ = true)
    (own : ∀ key ∈ keys, Visited walked key.1)
    {block : List Char × Record (List Char) (List Char)}
    (inside : block ∈ (iniWanted entries).entries)
    (distinct : ∀ other ∈ blocks, other.1 ≠ block.1) :
    ∃ more places, SectionsAdded entries walked written keys (blocks ++ [block])
      (addSection written out block) more places := by
  cases there : written.has block.1 with
  | true =>
    have stays : addSection written out block = out := if_pos there
    rw [stays]
    refine ⟨more, places, added.edit, added.old, added.new, fun place member => ?_,
      fun other member unwritten => ?_⟩
    · obtain ⟨unwritten, ⟨one, within, same⟩, key⟩ := added.places place member
      exact ⟨unwritten, ⟨one, mem_append_left _ within, same⟩, key⟩
    · obtain earlier | last := mem_append.mp member
      · exact added.all other earlier unwritten
      · rw [mem_singleton.mp last, there] at unwritten
        cases unwritten
  | false =>
    have has : (iniWanted entries).get block.1 = some block.2 := Record.get_of_mem inside
    have away : ¬ Visited walked block.1 := by
      intro visits
      have noted := visited _ visits (by rw [Record.has, has]; rfl)
      rw [there] at noted
      cases noted
    have unplaced : block.1 ∉ places := by
      intro member
      obtain ⟨-, ⟨one, within, same⟩, -⟩ := added.places _ member
      exact distinct one within same
    have unkeyed : ∀ name, (block.1, name) ∉ more := fun name member =>
      (added.new _ member).elim (fun earlier => away (own _ earlier)) unplaced
    obtain ⟨entry, member, name⟩ := iniWanted_names inside
    have fits : ']' ∉ block.1 := name ▸ (orderly.sections entry member).1
    have opened := added.edit.opened unplaced
    have home := @walk_opening entries out block.1 (fun empty => away (Or.inl empty)) fits
    have edit := ini_edit_add orderly opened has home (Sublist.refl _) fun entry _ =>
      unkeyed entry.1
    rw [← addSection_eq out block there] at edit
    obtain ⟨last, found⟩ : ∃ last, iniEntry entries (block.1, entry.key) = some last :=
      lastEntry_of_mem member (by rw [name, beq_self_eq_true, beq_self_eq_true]; rfl)
    obtain ⟨block_, has_, keyed⟩ := keys_of_iniEntry found
    rw [has] at has_
    obtain rfl := Option.some.inj has_
    have late : ∀ one ∈ block.2.entries, (block.1, one.1) ∈
        more ++ block.2.entries.map fun one => (block.1, one.1) := fun one within =>
      mem_append_right _ (List.mem_map.mpr ⟨one, within, rfl⟩)
    refine ⟨_, _, edit, fun key earlier => mem_append_left _ (added.old key earlier),
      fun key within => ?_, fun place within => ?_, fun other within unwritten => ?_⟩
    · obtain earlier | now := mem_append.mp within
      · exact (added.new key earlier).imp_right (mem_append_left _)
      · obtain ⟨one, -, rfl⟩ := List.mem_map.mp now
        exact Or.inr (mem_append_right _ mem_cons_self)
    · obtain earlier | now := mem_append.mp within
      · obtain ⟨unwritten, ⟨one, before, same⟩, key, there_, home_⟩ := added.places place earlier
        exact ⟨unwritten, ⟨one, mem_append_left _ before, same⟩, key,
          mem_append_left _ there_, home_⟩
      · rw [mem_singleton.mp now]
        exact ⟨there, ⟨block, mem_append_right _ mem_cons_self, rfl⟩, _,
          late _ keyed, rfl⟩
    · obtain earlier | now := mem_append.mp within
      · exact fun one there_ => mem_append_left _ (added.all other earlier unwritten one there_)
      · rw [mem_singleton.mp now]
        exact late

/-- The lines of a merged INI file are those of an edit. -/
theorem ini_fulfilled (orderly : IniEntries entries) (existing : List Char) :
    ∃ keys places, (iniPlan entries).Fulfilled (splitLines existing)
      (iniMerged existing entries) keys places := by
  obtain ⟨keys, tracks, done⟩ := tracks_walked orderly (splitLines existing)
  unfold iniMerged iniWalked
  dsimp only
  generalize ((splitLines existing).foldl (IniMerge.line (iniWanted entries))
    ⟨[], .empty, []⟩).flush (iniWanted entries) = merge at tracks done ⊢
  have visited : ∀ section_, Visited (splitLines existing) section_ →
      (iniWanted entries).has section_ = true → merge.written.has section_ = true := by
    intro section_ there has
    obtain ⟨block, found⟩ := Option.isSome_iff_exists.mp has
    exact (done section_ there block found).1
  have run : ∀ blocks, blocks.Sublist (iniWanted entries).entries →
      ∃ more places, SectionsAdded entries (splitLines existing) merge.written keys blocks
        (blocks.foldl (addSection merge.written) merge.out) more places := by
    intro blocks some_
    induction blocks using List.reverseRecOn with
    | nil =>
      exact ⟨keys, [], tracks.edit, fun _ inside => inside, fun _ inside => Or.inl inside,
        fun _ inside => absurd inside not_mem_nil, fun _ inside => absurd inside not_mem_nil⟩
    | append_singleton blocks block inductionHypothesis =>
      obtain ⟨more, places, added⟩ :=
        inductionHypothesis ((sublist_append_left blocks [block]).trans some_)
      have distinct := (iniWanted entries).distinct.sublist (some_.map Prod.fst)
      rw [map_append, nodup_append] at distinct
      rw [foldl_append]
      refine added.step orderly visited tracks.own
        (some_.subset (mem_append_right _ mem_cons_self)) fun other inside => ?_
      exact distinct.2.2 _ (List.mem_map_of_mem inside) _ mem_cons_self
  obtain ⟨more, places, added⟩ := run _ (Sublist.refl _)
  have absent : ∀ place ∈ places, ¬ Visited (splitLines existing) place := by
    intro place inside there
    obtain ⟨unwritten, ⟨block, within, rfl⟩, -⟩ := added.places place inside
    have has := visited _ there (by rw [Record.has, Record.get_of_mem within]; rfl)
    rw [unwritten] at has
    cases has
  refine ⟨more, places, added.edit, fun key wanted => ?_, fun key inside assigned => ?_,
    fun place inside => ?_⟩
  · obtain ⟨entry, found, -⟩ := Option.map_eq_some_iff.mp
      (Option.isSome_iff_exists.mp wanted).choose_spec
    obtain ⟨block, has, keyed⟩ := keys_of_iniEntry found
    cases there : merge.written.has key.1 with
    | true =>
      have noted := (done key.1 (tracks.visited _ there) block has).2 _ keyed
      exact ((tracks.notes key (found ▸ rfl)).mp noted).imp_right (added.old key)
    | false => exact Or.inr (added.all _ (Record.mem_of_get has) there _ keyed)
  · obtain earlier | new := added.new key inside
    · exact tracks.sparing key earlier assigned
    · exact absurd (visited_of_assigned assigned) (absent _ new)
  · obtain ⟨-, -, key⟩ := added.places place inside
    have away := absent place inside
    exact ⟨fun empty => away (Or.inl empty), fun begun => away (Or.inr begun), key⟩

end Sections

end Geeboard.Games
