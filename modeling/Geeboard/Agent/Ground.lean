/-
This file says what unpacking the archive of a folder does to an empty directory on
a disk with room for it. The disk refuses only what the file tree itself forces, a
directory where a file stands or a write with no file open, and a path that is longer
than its calls take.

Entry by entry the tree under the directory takes the shape of the entries that were
unpacked, whatever their order, as long as every path and every size fits what an
archive can hold, and every place what a call can be handed.
-/

import Geeboard.Agent.Unpack

namespace Geeboard.Tar

open Text Feeding List Function

/-! ### An empty directory -/

/-- An empty directory, in the file tree it stands in, and how many bytes of a path the calls of
the file system take. -/
structure Ground where
  directory : Place
  tree : Tree
  longest : Nat
  standing : Standing directory tree
  empty : ∀ parts, directory.parts <+: parts → parts ≠ directory.parts → tree parts = none

/-- Whether something stands on the way to a place, or there, that is no directory. -/
def Surface.blocked (surface : Surface) (path : Place) : Bool :=
  path.parts.inits.any fun parts =>
    match surface.tree parts with
    | none => false
    | some .directory => false
    | some _ => true

/-- How many bytes a call is handed for a place: the whole path, from the root. -/
def pathBytes (path : Place) : Nat := (encode path.text).length

namespace Ground

/-- The file that was to be opened has a path that is too long. -/
def tooLong (ground : Ground) (log : List Effect) : Bool :=
  log.any fun effect =>
    match effect with
    | .opened path => ground.longest < pathBytes path
    | _ => false

/-- Why nothing can be written to what was opened. -/
def unopened (ground : Ground) (log : List Effect) : Option String :=
  if ground.tooLong log then some "ENAMETOOLONG"
  else if (replay ground.tree log).sink.isSome then none
  else some "EISDIR"

/-- A disk that has room, and refuses only a path that is too long and what the file tree it
holds forces it to. -/
def disk (ground : Ground) : Disk where
  mkdir log path :=
    if ground.longest < pathBytes path then some "ENAMETOOLONG"
    else if (replay ground.tree log).blocked path then some "ENOTDIR"
    else none
  write log _ := ground.unopened log
  close log := ground.unopened log
  space _ := .ok ⟨100 * gib, 100 * gib⟩
  floorBytes := none

/-- The file tree with something in its empty directory. -/
def filled (ground : Ground) (inside : Tree) : Tree := fun parts =>
  if ground.directory.parts <+: parts ∧ parts ≠ ground.directory.parts then
    inside (parts.drop ground.directory.parts.length)
  else ground.tree parts

end Ground

theorem replay_append (tree : Tree) (log : List Effect) (effect : Effect) :
    replay tree (log ++ [effect]) = (replay tree log).apply effect := by
  unfold replay
  rw [foldl_append]
  rfl

/-! ### Round trips -/

/-- A folder whose archive, unpacked into an empty directory however its bytes arrive, gives
the folder back, what has a name that is no text included, and changes nothing else. -/
def RoundTrips (ground : Ground) (folder : Folder) : Prop :=
  ∀ checkEvery source, source.flatten = folder.archive.flatten →
    (∃ files, (extractInto ground.disk ground.directory checkEvery source none).result =
      .ok files) ∧
    (replay ground.tree
      (extractInto ground.disk ground.directory checkEvery source none).log).tree =
        ground.filled folder.tree ∧
    ∀ other ∈ folder.unspelled, ∃ name, encode name = other.name ∧
      (replay ground.tree
        (extractInto ground.disk ground.directory checkEvery source none).log).tree
          (ground.directory.parts ++ other.above ++ [name]) ≠ none

/-- A folder that fits an archive and a directory: every name is a text, no path begins with a
backslash, no file has more bytes than twelve octal digits count, no path is too long for an
extended header, and none in the directory is too long for a call. -/
def Folder.Fits (ground : Ground) (folder : Folder) : Prop :=
  folder.unspelled = [] ∧
    ∀ entry ∈ folder.entries, entry.relative.head? ≠ some '\\' ∧ entry.bytes.length < 8 ^ 12 ∧
      (encode entry.name).length ≤ 1048562 ∧
      (encode ('/' :: joined (ground.directory.parts ++ entry.parts))).length ≤ ground.longest

/-! ### Where an entry is put -/

/-- A name without what stands in front of it that looks like a root. -/
def stripped (name : List Char) : List Char :=
  name.dropWhile fun char => char = '/' || char = '\\'

theorem stripped_append_slash (text : List Char) :
    stripped (text ++ ['/']) = if stripped text = [] then [] else stripped text ++ ['/'] := by
  unfold stripped
  rw [dropWhile_append]
  by_cases empty : text.dropWhile (fun char => decide (char = '/') || decide (char = '\\')) = []
  · rw [if_pos empty, empty]
    rfl
  · rw [if_neg empty, if_neg (fun nothing => empty (List.isEmpty_iff.mp nothing))]

/-- The separator at the end of a directory's name makes no difference. -/
theorem resolve_stripped_name (root : Place) (entry : Stored) :
    root.resolve (stripped entry.name) = root.resolve (stripped entry.relative) := by
  unfold Stored.name
  split
  · rw [stripped_append_slash]
    split
    · next empty => rw [empty]
    · next some' => exact root.resolve_slash _ some'
  · rfl

theorem safeJoin_ok {root target : Place} {name : List Char}
    (joined : safeJoin root name = .ok target) : target = root.resolve (stripped name) := by
  unfold safeJoin at joined
  split at joined
  · exact nomatch joined
  · dsimp only at joined
    split at joined
    · exact nomatch joined
    · cases joined
      rfl

theorem safeJoin_of_within (root : Place) (name : List Char) (clean : '\x00' ∉ name)
    (within : root.Within (root.resolve (stripped name))) :
    safeJoin root name = .ok (root.resolve (stripped name)) := by
  have inside := (root.within_iff_text _).mp within
  unfold safeJoin
  rw [if_neg clean]
  dsimp only
  rw [if_neg]
  · rfl
  · rintro ⟨differs, outside⟩
    obtain same | begins := inside
    · exact differs same
    · exact outside (List.isPrefixOf_iff_prefix.mpr begins)

/-- Where an entry of a folder stands under a place. -/
def Stored.under (entry : Stored) (root : Place) (named : entry.Named) : Place where
  parts := root.parts ++ entry.parts
  proper part member := by
    obtain above | below := mem_append.mp member
    · exact root.proper part above
    · exact (named.2 part below).1

/-- The path of what a place is in is no longer than the place's. -/
theorem pathBytes_parent (path : Place) : pathBytes path.parent ≤ pathBytes path := by
  have begins : path.parent.text <+: path.text := by
    show '/' :: joined path.parts.dropLast <+: '/' :: joined path.parts
    refine (prefix_cons_inj _).mpr ?_
    by_cases above : path.parts.dropLast = []
    · rw [above]
      exact nil_prefix
    · have some' : path.parts ≠ [] := fun none' => above (by rw [none']; rfl)
      conv => rhs; rw [← dropLast_append_getLast some']
      rw [joined_append _ _ above (cons_ne_nil _ _)]
      exact prefix_append _ _
  obtain ⟨rest, split⟩ := begins
  unfold pathBytes
  rw [← split, encode_append, length_append]
  exact Nat.le_add_right _ _

theorem stripped_relative {entry : Stored} (named : entry.Named)
    (plain : entry.relative.head? ≠ some '\\') : stripped entry.relative = entry.relative := by
  have proper : ∀ part ∈ entry.parts, IsPart part := fun part member => (named.2 part member).1
  unfold stripped
  cases relative : entry.relative with
  | nil => rfl
  | cons char rest =>
    have separator : char ≠ '/' := by
      rintro rfl
      have cut := segments_joined entry.parts proper named.1
      unfold Stored.relative at relative
      rw [relative, show '/' :: rest = [] ++ '/' :: rest from rfl, segments_append] at cut
      have empty : [] ∈ entry.parts := by
        rw [← cut]
        exact mem_append_left _ (mem_singleton.mpr rfl)
      exact (proper [] empty).1 rfl
    have backslash : char ≠ '\\' := by
      rintro rfl
      exact plain (by rw [relative]; rfl)
    rw [dropWhile_cons_of_neg]
    rw [Bool.or_eq_true, decide_eq_true_eq, decide_eq_true_eq]
    rintro (slash | back)
    · exact separator slash
    · exact backslash back

/-- An entry whose path does not begin with a backslash is put where it stood. -/
theorem safeJoin_name {entry : Stored} (named : entry.Named) (root : Place)
    (plain : entry.relative.head? ≠ some '\\') :
    safeJoin root entry.name = .ok (entry.under root named) := by
  have proper : ∀ part ∈ entry.parts, IsPart part := fun part member => (named.2 part member).1
  have target : root.resolve (stripped entry.name) = entry.under root named := by
    rw [resolve_stripped_name, stripped_relative named plain]
    exact Place.ext_parts (root.resolve_joined entry.parts named.1 proper)
  rw [safeJoin_of_within root entry.name (Stored.name_clean named), target]
  rw [target]
  exact prefix_append _ _

/-! ### The shape of what was unpacked -/

/-- What entries make of an empty directory: each its own node, and the directories on the way
to it. -/
def shape (done : List Stored) : Tree := fun parts =>
  match done.find? fun entry => entry.parts = parts with
  | some entry => some entry.node
  | none => if ∃ entry ∈ done, parts <+: entry.parts then some .directory else none

theorem found_entry {entries : List Stored} {parts : List (List Char)} {entry : Stored}
    (found : entries.find? (fun entry => entry.parts = parts) = some entry) :
    entry ∈ entries ∧ entry.parts = parts := by
  refine ⟨mem_of_find?_eq_some found, ?_⟩
  have matching := find?_some found
  exact of_decide_eq_true matching

theorem found_none {entries : List Stored} {parts : List (List Char)}
    (found : entries.find? (fun entry => entry.parts = parts) = none) :
    ∀ entry ∈ entries, parts ≠ entry.parts := by
  intro entry member same
  exact find?_eq_none.mp found entry member (decide_eq_true same.symm)

section
variable {folder : Folder}

/-- No two entries of a folder have one path. -/
theorem Folder.unique {first second : Stored} (one : first ∈ folder.entries)
    (other : second ∈ folder.entries) (same : first.parts = second.parts) : first = second :=
  inj_on_of_nodup_map folder.distinct one other same

theorem Folder.find {entry : Stored} (member : entry ∈ folder.entries) :
    folder.tree entry.parts = some entry.node := by
  unfold Folder.tree
  cases found : folder.entries.find? fun other => other.parts = entry.parts with
  | none => exact absurd rfl (found_none found entry member)
  | some other =>
    obtain ⟨there, same⟩ := found_entry found
    rw [folder.unique there member same]
    rfl

/-- In the end the entries of a folder have made the folder. -/
theorem shape_entries (parts : List (List Char)) (some' : parts ≠ []) :
    shape folder.entries parts = folder.tree parts := by
  unfold shape Folder.tree
  cases found : folder.entries.find? fun entry => entry.parts = parts with
  | some entry => rfl
  | none =>
    dsimp only
    rw [if_neg]
    · rfl
    · rintro ⟨entry, member, leads⟩
      obtain ⟨above, there, same, _⟩ :=
        folder.closed entry member parts some' leads (found_none found entry member)
      exact found_none found above there same.symm

/-- What stands on the way to an entry of a folder is a directory, or not there yet. -/
theorem shape_above {done : List Stored} (earlier : ∀ entry ∈ done, entry ∈ folder.entries)
    {entry : Stored} (member : entry ∈ folder.entries) {parts : List (List Char)}
    (some' : parts ≠ []) (leads : parts <+: entry.parts) (apart : parts ≠ entry.parts) :
    shape done parts = none ∨ shape done parts = some .directory := by
  unfold shape
  cases found : done.find? fun entry => entry.parts = parts with
  | some other =>
    obtain ⟨there, same⟩ := found_entry found
    obtain ⟨above, placed, same', mode, mtimeMs, content⟩ :=
      folder.closed entry member parts some' leads apart
    have equal := folder.unique (earlier other there) placed (same.trans same'.symm)
    refine Or.inr ?_
    rw [equal]
    show some above.node = _
    unfold Stored.node
    rw [content]
  | none =>
    dsimp only
    split
    · exact Or.inr rfl
    · exact Or.inl rfl

/-- What stands at an entry that was not unpacked yet: nothing, if it is a file. -/
theorem shape_at {done : List Stored} (earlier : ∀ entry ∈ done, entry ∈ folder.entries)
    {entry : Stored} (member : entry ∈ folder.entries) (fresh : entry ∉ done) :
    shape done entry.parts = none ∨
      shape done entry.parts = some .directory ∧ entry.isDirectory := by
  unfold shape
  cases found : done.find? fun other => other.parts = entry.parts with
  | some other =>
    obtain ⟨there, same⟩ := found_entry found
    rw [folder.unique (earlier other there) member same] at there
    exact absurd there fresh
  | none =>
    dsimp only
    split
    · next below =>
      obtain ⟨other, there, leads⟩ := below
      obtain ⟨above, placed, same, directory⟩ := folder.closed other (earlier other there)
        entry.parts (folder.named entry member).1 leads (found_none found other there)
      rw [folder.unique placed member same] at directory
      exact Or.inr ⟨rfl, directory⟩
    · exact Or.inl rfl

/-- What an entry adds to the shape: its own node, and the directories that were missing on the
way to it. -/
theorem shape_append {done : List Stored} (earlier : ∀ entry ∈ done, entry ∈ folder.entries)
    {entry : Stored} (member : entry ∈ folder.entries) (fresh : entry ∉ done)
    (parts : List (List Char)) :
    shape (done ++ [entry]) parts =
      if parts = entry.parts then some entry.node
      else if parts <+: entry.parts ∧ shape done parts = none then some .directory
      else shape done parts := by
  by_cases here : parts = entry.parts
  · rw [if_pos here]
    have missing : done.find? (fun other => other.parts = parts) = none := by
      rw [find?_eq_none]
      intro other there matching
      have same := of_decide_eq_true matching
      rw [folder.unique (earlier other there) member (same.trans here)] at there
      exact fresh there
    unfold shape
    rw [find?_append, missing, Option.none_or, find?_singleton,
      if_pos (decide_eq_true here.symm)]
  · rw [if_neg here]
    have other : [entry].find? (fun other => other.parts = parts) = none := by
      rw [find?_singleton, if_neg (fun matching => here (of_decide_eq_true matching).symm)]
    unfold shape
    rw [find?_append, other, Option.or_none]
    cases found : done.find? fun other => other.parts = parts with
    | some earlier' =>
      dsimp only
      rw [if_neg (fun both => nomatch both.2)]
    | none =>
      dsimp only
      have more : (∃ other ∈ done ++ [entry], parts <+: other.parts) ↔
          (∃ other ∈ done, parts <+: other.parts) ∨ parts <+: entry.parts := by
        refine ⟨?_, ?_⟩
        · rintro ⟨first, there, leads⟩
          obtain early | last := mem_append.mp there
          · exact Or.inl ⟨first, early, leads⟩
          · rw [mem_singleton.mp last] at leads
            exact Or.inr leads
        · rintro (⟨first, early, leads⟩ | leads)
          · exact ⟨first, mem_append_left _ early, leads⟩
          · exact ⟨entry, mem_append_right _ (mem_singleton.mpr rfl), leads⟩
      by_cases below : ∃ other ∈ done, parts <+: other.parts
      · rw [if_pos (more.mpr (Or.inl below)), if_pos below]
        split <;> rfl
      · rw [if_neg below]
        by_cases leads : parts <+: entry.parts
        · rw [if_pos (more.mpr (Or.inr leads)), if_pos ⟨leads, rfl⟩]
        · rw [if_neg (fun both : _ ∧ _ => leads both.1), if_neg]
          intro made
          obtain early | last := more.mp made
          · exact below early
          · exact leads last

end

/-! ### The calls, in the directory -/

section
variable (ground : Ground)

variable {parts : List (List Char)}

theorem filled_below (inside : Tree) (some' : parts ≠ []) :
    ground.filled inside (ground.directory.parts ++ parts) = inside parts := by
  have below : ground.directory.parts ++ parts ≠ ground.directory.parts := by
    intro same
    exact some' (append_right_eq_self.mp same)
  unfold Ground.filled
  rw [if_pos ⟨prefix_append _ _, below⟩, drop_left]

/-- Two file trees are one if they are so below the directory and elsewhere. -/
theorem filled_ext {first : Tree} {inside : Tree}
    (below : ∀ parts, parts ≠ [] → first (ground.directory.parts ++ parts) = inside parts)
    (elsewhere : ∀ parts, ¬(ground.directory.parts <+: parts ∧ parts ≠ ground.directory.parts) →
      first parts = ground.tree parts) : first = ground.filled inside := by
  funext parts
  by_cases there : ground.directory.parts <+: parts ∧ parts ≠ ground.directory.parts
  · obtain ⟨rest, split⟩ := there.1
    have some' : rest ≠ [] := by
      rintro rfl
      exact there.2 (by rw [← split, append_nil])
    rw [← split, filled_below ground inside some', below rest some']
  · unfold Ground.filled
    rw [if_neg there, elsewhere parts there]

theorem filled_elsewhere (inside : Tree)
    (elsewhere : ¬(ground.directory.parts <+: parts ∧ parts ≠ ground.directory.parts)) :
    ground.filled inside parts = ground.tree parts := by
  unfold Ground.filled
  rw [if_neg elsewhere]

/-- What leads to a place below the directory and is not below it itself leads to the
directory. -/
theorem stands_of_leads {below : List (List Char)}
    (elsewhere : ¬(ground.directory.parts <+: parts ∧ parts ≠ ground.directory.parts))
    (leads : parts <+: ground.directory.parts ++ below) :
    ground.tree parts = some .directory := by
  refine ground.standing parts ?_
  obtain under | above := prefix_or_prefix_of_prefix (prefix_append _ below) leads
  · by_cases same : parts = ground.directory.parts
    · rw [same]
    · exact absurd ⟨under, same⟩ elsewhere
  · exact above

theorem update_filled (inside : Tree) (some' : parts ≠ []) (node : Node) :
    Function.update (ground.filled inside) (ground.directory.parts ++ parts) (some node) =
      ground.filled (Function.update inside parts (some node)) := by
  refine filled_ext ground ?_ ?_
  · intro other some''
    by_cases same : other = parts
    · rw [same, update_self, update_self]
    · rw [update_of_ne (fun equal => same (append_cancel_left equal)),
        update_of_ne same, filled_below ground inside some'']
  · intro other elsewhere
    rw [update_of_ne, filled_elsewhere ground inside elsewhere]
    rintro rfl
    refine elsewhere ⟨prefix_append _ _, fun same => ?_⟩
    exact some' (append_right_eq_self.mp same)

theorem apply_mkdir_filled (inside : Tree) (sink : Option (List (List Char))) {path : Place}
    (there : path.parts = ground.directory.parts ++ parts) :
    (⟨ground.filled inside, sink⟩ : Surface).apply (.mkdir path) =
      ⟨ground.filled fun other =>
        if other <+: parts ∧ inside other = none then some .directory else inside other, sink⟩ := by
  unfold Surface.apply
  dsimp only
  congr 1
  refine filled_ext ground ?_ ?_
  · intro other some'
    simp only [filled_below ground inside some', there, prefix_append_right_inj]
  · intro other elsewhere
    simp only [filled_elsewhere ground inside elsewhere]
    rw [if_neg]
    rintro ⟨leads, missing⟩
    rw [there] at leads
    rw [stands_of_leads ground elsewhere leads] at missing
    exact nomatch missing

theorem not_blocked_filled (inside : Tree) (sink : Option (List (List Char))) {path : Place}
    (there : path.parts = ground.directory.parts ++ parts)
    (open' : ∀ other, other ≠ [] → other <+: parts →
      inside other = none ∨ inside other = some .directory) :
    (⟨ground.filled inside, sink⟩ : Surface).blocked path = false := by
  unfold Surface.blocked
  rw [List.any_eq_false]
  intro other member
  have leads := (mem_inits _ _).mp member
  rw [there] at leads
  dsimp only
  by_cases below : ground.directory.parts <+: other ∧ other ≠ ground.directory.parts
  · obtain ⟨rest, split⟩ := below.1
    have some' : rest ≠ [] := by
      rintro rfl
      exact below.2 (by rw [← split, append_nil])
    rw [← split] at leads ⊢
    rw [filled_below ground inside some']
    obtain none' | directory := open' rest some' ((prefix_append_right_inj _).mp leads)
    · rw [none']
      exact Bool.false_ne_true
    · rw [directory]
      exact Bool.false_ne_true
  · rw [filled_elsewhere ground inside below, stands_of_leads ground below leads]
    exact Bool.false_ne_true

theorem tooLong_append (log : List Effect) (effect : Effect) :
    ground.tooLong (log ++ [effect]) = (ground.tooLong log || ground.tooLong [effect]) :=
  any_append

theorem unopened_eq_none {log : List Effect} (short : ground.tooLong log = false) :
    ground.unopened log =
      if (replay ground.tree log).sink.isSome then none else some "EISDIR" := by
  unfold Ground.unopened
  rw [short]
  rfl

/-- The bytes of a file are written into it. -/
theorem writeBytes_filled (inside : Tree) (some' : parts ≠ []) (bytes content : Bytes)
    (log : List Effect) (before : replay ground.tree log =
      ⟨ground.filled (Function.update inside parts (some (.file content))),
        some (ground.directory.parts ++ parts)⟩) (short : ground.tooLong log = false) :
    ∃ after, writeBytes ground.disk log bytes = .ok after ∧
      replay ground.tree after =
        ⟨ground.filled (Function.update inside parts (some (.file (content ++ bytes)))),
          some (ground.directory.parts ++ parts)⟩ ∧ ground.tooLong after = false := by
  induction bytes generalizing content log with
  | nil =>
    refine ⟨log, rfl, ?_, short⟩
    rw [append_nil]
    exact before
  | cons byte bytes inductionHypothesis =>
    have allowed : ground.disk.write log byte = none := by
      show ground.unopened log = none
      rw [unopened_eq_none ground short, before]
      rfl
    have written : replay ground.tree (log ++ [.wrote byte]) =
        ⟨ground.filled (Function.update inside parts (some (.file (content ++ [byte])))),
          some (ground.directory.parts ++ parts)⟩ := by
      rw [replay_append, before]
      unfold Surface.apply
      dsimp only
      rw [filled_below ground _ some', update_self]
      dsimp only
      rw [update_filled ground _ some', update_idem]
    obtain ⟨after, wrote, ends, still⟩ := inductionHypothesis (content ++ [byte]) _ written
      ((tooLong_append ground log (.wrote byte)).trans (by rw [short]; rfl))
    rw [append_assoc] at ends
    refine ⟨after, ?_, ends, still⟩
    unfold writeBytes
    rw [allowed]
    exact wrote

/-! ### An entry, and all of them -/

/-- The file tree after a log, when the entries that were unpacked are these. -/
def Mirrors (log : List Effect) (done : List Stored) : Prop :=
  replay ground.tree log = ⟨ground.filled (shape done), none⟩ ∧ ground.tooLong log = false

theorem filled_congr {first second : Tree}
    (same : ∀ parts, parts ≠ [] → first parts = second parts) :
    ground.filled first = ground.filled second := by
  refine filled_ext ground ?_ fun parts elsewhere => filled_elsewhere ground first elsewhere
  intro parts some'
  rw [filled_below ground first some', same parts some']

variable {folder : Folder} {done : List Stored} {log : List Effect}

/-- A directory is made where it stood. -/
theorem mirrors_directory (earlier : ∀ entry ∈ done, entry ∈ folder.entries)
    {entry : Stored} (member : entry ∈ folder.entries) (fresh : entry ∉ done)
    (directory : entry.node = .directory) (mirrors : Mirrors ground log done)
    (short : pathBytes (entry.under ground.directory (folder.named entry member)) ≤
      ground.longest) :
    ∃ after, makeDirectory ground.disk log
        (entry.under ground.directory (folder.named entry member)) = .ok after ∧
      Mirrors ground after (done ++ [entry]) := by
  have there : (entry.under ground.directory (folder.named entry member)).parts =
      ground.directory.parts ++ entry.parts := rfl
  have allowed : ground.disk.mkdir log
      (entry.under ground.directory (folder.named entry member)) = none := by
    show (if _ then some "ENAMETOOLONG"
      else if (replay ground.tree log).blocked _ then some "ENOTDIR" else none) = none
    rw [if_neg (Nat.not_lt.mpr short), mirrors.1, not_blocked_filled ground _ none there,
      if_neg Bool.false_ne_true]
    intro other some' leads
    by_cases here : other = entry.parts
    · rw [here]
      obtain none' | ⟨made, _⟩ := shape_at earlier member fresh
      · exact Or.inl none'
      · exact Or.inr made
    · exact shape_above earlier member some' leads here
  refine ⟨log ++ [.mkdir (entry.under ground.directory (folder.named entry member))], ?_, ?_⟩
  · unfold makeDirectory
    rw [allowed]
  · refine ⟨?_, (tooLong_append ground log _).trans (by rw [mirrors.2]; rfl)⟩
    rw [replay_append, mirrors.1, apply_mkdir_filled ground _ none there]
    congr 1
    refine filled_congr ground fun parts some' => ?_
    rw [shape_append earlier member fresh]
    by_cases here : parts = entry.parts
    · rw [if_pos here, here, directory]
      obtain none' | ⟨made, _⟩ := shape_at earlier member fresh
      · rw [if_pos ⟨prefix_rfl, none'⟩]
      · rw [if_neg (fun both => by rw [made] at both; exact nomatch both.2), made]
    · rw [if_neg here]

/-- A file is written where it stood. -/
theorem mirrors_file (earlier : ∀ entry ∈ done, entry ∈ folder.entries)
    {entry : Stored} (member : entry ∈ folder.entries) (fresh : entry ∉ done)
    {mode : Nat} {mtimeMs : Int} {bytes : Bytes} (content : entry.content = .file mode mtimeMs bytes)
    (mirrors : Mirrors ground log done)
    (short : pathBytes (entry.under ground.directory (folder.named entry member)) ≤
      ground.longest) :
    ∃ after, unpackAt ground.disk log
        (entry.under ground.directory (folder.named entry member)) entry.content = .ok after ∧
      Mirrors ground after (done ++ [entry]) := by
  have some' : entry.parts ≠ [] := (folder.named entry member).1
  have node : entry.node = .file bytes := by
    unfold Stored.node
    rw [content]
  have there : (entry.under ground.directory (folder.named entry member)).parts =
      ground.directory.parts ++ entry.parts := rfl
  have above : (entry.under ground.directory (folder.named entry member)).parent.parts =
      ground.directory.parts ++ entry.parts.dropLast := dropLast_append_of_ne_nil some'
  have shorter : ¬entry.parts <+: entry.parts.dropLast := by
    intro leads
    have length := leads.length_le
    have positive := length_pos_of_ne_nil some'
    rw [length_dropLast] at length
    omega
  have missing : shape done entry.parts = none := by
    obtain none' | ⟨_, mode', mtimeMs', directory⟩ := shape_at earlier member fresh
    · exact none'
    · rw [content] at directory
      exact nomatch directory
  generalize target : entry.under ground.directory (folder.named entry member) = path
    at there above short
  have allowed : ground.disk.mkdir log path.parent = none := by
    show (if _ then some "ENAMETOOLONG"
      else if (replay ground.tree log).blocked _ then some "ENOTDIR" else none) = none
    rw [if_neg (Nat.not_lt.mpr ((pathBytes_parent path).trans short)), mirrors.1,
      not_blocked_filled ground _ none above, if_neg Bool.false_ne_true]
    intro other some'' leads
    refine shape_above earlier member some'' (leads.trans (List.dropLast_prefix _)) ?_
    rintro rfl
    exact shorter leads
  have made : replay ground.tree (log ++ [.mkdir path.parent]) = _ :=
    (replay_append _ _ _).trans (by rw [mirrors.1, apply_mkdir_filled ground _ none above])
  have opened : replay ground.tree (log ++ [.mkdir path.parent] ++ [.opened path]) =
      ⟨ground.filled (Function.update
        (fun other => if other <+: entry.parts.dropLast ∧ shape done other = none
          then some .directory else shape done other) entry.parts (some (.file []))),
        some (ground.directory.parts ++ entry.parts)⟩ := by
    rw [replay_append, made]
    unfold Surface.apply
    dsimp only
    rw [there, filled_below ground _ some', if_neg (fun both => shorter both.1), missing]
    dsimp only
    rw [update_filled ground _ some']
  have shortLog : ground.tooLong (log ++ [.mkdir path.parent] ++ [.opened path]) = false := by
    rw [tooLong_append, tooLong_append, mirrors.2]
    show (false || false || (decide (ground.longest < pathBytes path) || false)) = false
    rw [decide_eq_false (Nat.not_lt.mpr short)]
    rfl
  obtain ⟨wrote, written, ends, still⟩ :=
    writeBytes_filled ground _ some' bytes [] _ opened shortLog
  rw [nil_append] at ends
  refine ⟨wrote ++ [.closed], ?_, ?_⟩
  · have closes : ground.disk.close wrote = none := by
      show ground.unopened wrote = none
      rw [unopened_eq_none ground still, ends]
      rfl
    unfold unpackAt
    rw [content]
    dsimp only
    unfold makeDirectory
    rw [allowed]
    dsimp only
    rw [written]
    dsimp only
    unfold closeSink
    rw [closes]
  · refine ⟨?_, (tooLong_append ground wrote .closed).trans (by rw [still]; rfl)⟩
    rw [replay_append, ends]
    show Surface.mk (ground.filled _) none = _
    congr 1
    refine filled_congr ground fun parts some'' => ?_
    rw [shape_append earlier member fresh]
    by_cases here : parts = entry.parts
    · rw [if_pos here, here, update_self, node]
    · rw [if_neg here, update_of_ne here]
      have same : parts <+: entry.parts.dropLast ↔ parts <+: entry.parts := by
        refine ⟨fun leads => leads.trans (List.dropLast_prefix _), fun leads => ?_⟩
        obtain ⟨rest, split⟩ := leads
        have more : rest ≠ [] := by
          rintro rfl
          exact here (by rw [← split, append_nil])
        rw [← split, dropLast_append_of_ne_nil more]
        exact prefix_append _ _
      simp only [same]

/-- An entry that fits is unpacked where it stood. -/
theorem mirrors_entry (fits : folder.Fits ground) (earlier : ∀ entry ∈ done, entry ∈ folder.entries)
    {entry : Stored} (member : entry ∈ folder.entries) (fresh : entry ∉ done)
    (mirrors : Mirrors ground log done) :
    ∃ after, unpackEntry ground.disk ground.directory log entry = .ok after ∧
      Mirrors ground after (done ++ [entry]) := by
  obtain ⟨plain, _, short, shortPath⟩ := fits.2 entry member
  have shortEnough : ¬entry.TooLong := fun tooLong =>
    Nat.not_le.mpr tooLong.2 ((lengthIn_le_iff entry.name).mpr short)
  unfold unpackEntry
  rw [if_neg shortEnough, safeJoin_name (folder.named entry member) ground.directory plain]
  dsimp only
  cases content : entry.content with
  | directory mode mtimeMs =>
    have node : entry.node = .directory := by
      unfold Stored.node
      rw [content]
    exact mirrors_directory ground earlier member fresh node mirrors shortPath
  | file mode mtimeMs bytes =>
    rw [← content]
    exact mirrors_file ground earlier member fresh content mirrors shortPath

/-- Entries that fit are unpacked where they stood. -/
theorem mirrors_entries (fits : folder.Fits ground) (rest : List Stored)
    (order : folder.entries = done ++ rest) (mirrors : Mirrors ground log done) :
    ∃ after, unpackAll ground.disk ground.directory log rest = .ok after ∧
      Mirrors ground after folder.entries := by
  induction rest generalizing done log with
  | nil =>
    rw [append_nil] at order
    rw [order]
    exact ⟨log, rfl, mirrors⟩
  | cons entry rest inductionHypothesis =>
    have member : entry ∈ folder.entries := by
      rw [order]
      exact mem_append_right _ mem_cons_self
    have earlier : ∀ other ∈ done, other ∈ folder.entries := by
      intro other there
      rw [order]
      exact mem_append_left _ there
    have fresh : entry ∉ done := by
      have distinct := Nodup.of_map _ folder.distinct
      rw [order] at distinct
      exact fun there => disjoint_of_nodup_append distinct there mem_cons_self
    obtain ⟨next, unpacked, mirrors'⟩ :=
      mirrors_entry ground fits earlier member fresh mirrors
    obtain ⟨after, rest', ends⟩ := inductionHypothesis
      (by rw [order, append_assoc]; rfl) mirrors'
    refine ⟨after, ?_, ends⟩
    unfold unpackAll
    rw [unpacked]
    exact rest'

end

end Geeboard.Tar
