/-
This file proves that unpacking stays inside the directory it unpacks into.

Every file is opened at a place at or under the directory, whatever the archive says
its name is, and every directory is made at such a place or is one of those that
lead to it. Replayed on a file tree in which the directory stands, the calls change
nothing outside it and make no link.
-/

import Geeboard.Agent.Cuts
import Mathlib.Logic.Function.Basic

namespace Geeboard.Tar

open Text Feeding List Function

/-! ### A file tree -/

/-- What stands at a path. -/
inductive Node where
  | directory
  | file (bytes : Bytes)
  | link (target : List Char)
  deriving DecidableEq

/-- What stands where. -/
abbrev Tree : Type := List (List Char) → Option Node

/-- A file tree, and the path of the file that is open for writing. -/
structure Surface where
  tree : Tree
  sink : Option (List (List Char))

/-- What a call that took effect did to the file tree. A directory that cannot be written to as
a file is not changed by being opened, and where a link stands nothing is said: unpacking
begins in an empty directory. -/
def Surface.apply (surface : Surface) : Effect → Surface
  | .mkdir path =>
    { surface with
      tree := fun parts =>
        if parts <+: path.parts ∧ surface.tree parts = none then some .directory
        else surface.tree parts }
  | .opened path =>
    match surface.tree path.parts with
    | some .directory => { surface with sink := none }
    | some (.link _) => { surface with sink := none }
    | _ => ⟨Function.update surface.tree path.parts (some (.file [])), some path.parts⟩
  | .wrote byte =>
    match surface.sink with
    | none => surface
    | some parts =>
      match surface.tree parts with
      | some (.file bytes) =>
        { surface with
          tree := Function.update surface.tree parts (some (.file (bytes ++ [byte]))) }
      | _ => surface
  | .closed => { surface with sink := none }

/-- The file tree after the calls of a log, and the file left open. -/
def replay (tree : Tree) (log : List Effect) : Surface :=
  log.foldl Surface.apply ⟨tree, none⟩

/-- A directory that stands in a file tree, with the directories that lead to it. -/
def Standing (directory : Place) (tree : Tree) : Prop :=
  ∀ parts, parts <+: directory.parts → tree parts = some .directory

/-! ### The calls -/

/-- A call inside a directory: a file opened at or under it, or a directory made at or under
it or on the way to it. -/
def Effect.Inside (directory : Place) : Effect → Prop
  | .mkdir path => directory.Within path ∨ path.Within directory
  | .opened path => directory.Within path
  | .wrote _ => True
  | .closed => True

/-- A log of calls inside a directory. -/
def LogInside (directory : Place) (log : List Effect) : Prop :=
  ∀ effect ∈ log, effect.Inside directory

theorem logInside_append {directory : Place} {log : List Effect} {effect : Effect}
    (inside : LogInside directory log) (last : effect.Inside directory) :
    LogInside directory (log ++ [effect]) := by
  intro other member
  obtain earlier | here := mem_append.mp member
  · exact inside other earlier
  · rw [mem_singleton.mp here]
    exact last

/-- The name of an entry leads to a place inside, or nowhere. -/
theorem safeJoin_within {root target : Place} {name : List Char}
    (joined : safeJoin root name = .ok target) : root.Within target := by
  unfold safeJoin at joined
  split at joined
  · exact nomatch joined
  · dsimp only at joined
    split at joined
    · exact nomatch joined
    · next contained =>
      cases joined
      rw [Place.within_iff_text]
      by_cases same : (root.resolve (name.dropWhile fun char => char = '/' || char = '\\')).text =
          root.text
      · exact Or.inl same
      · refine Or.inr (List.isPrefixOf_iff_prefix.mp ?_)
        by_cases start : root.textWithSeparator.isPrefixOf
            (root.resolve (name.dropWhile fun char => char = '/' || char = '\\')).text = true
        · exact start
        · exact absurd ⟨same, start⟩ contained

/-- The directory of a place inside is inside, or leads there. -/
theorem within_parent {root place : Place} (within : root.Within place) :
    root.Within place.parent ∨ place.parent.Within root := by
  obtain ⟨rest, split⟩ := within
  by_cases empty : rest = []
  · refine Or.inr ?_
    show place.parts.dropLast <+: root.parts
    rw [empty, append_nil] at split
    rw [split]
    exact dropLast_prefix place.parts
  · refine Or.inl ?_
    show root.parts <+: place.parts.dropLast
    rw [← split, dropLast_append_of_ne_nil empty]
    exact prefix_append _ _

section
variable (disk : Disk) {directory : Place} (checkEvery : Option Nat)

/-- What a step gives has made calls inside only. -/
abbrev ResultInside (directory : Place) {Value : Type} (log : Value → List Effect) :
    Fallible Value → Prop :=
  Machine.Kept (fun value => LogInside directory (log value))
    fun stopped => LogInside directory stopped.1

/-- A turn has made calls inside only. -/
abbrev TurnInside (directory : Place) : Fallible (Turn Extraction) → Prop :=
  Machine.KeptTurn (fun state => LogInside directory state.log)
    fun stopped => LogInside directory stopped.1

theorem writeBytes_inside {log : List Effect} (bytes : Bytes) (inside : LogInside directory log) :
    ResultInside directory id (writeBytes disk log bytes) := by
  induction bytes generalizing log with
  | nil => exact inside
  | cons byte bytes inductionHypothesis =>
    unfold writeBytes
    split
    · exact inside
    · exact inductionHypothesis (logInside_append inside trivial)

theorem makeDirectory_inside {log : List Effect} {path : Place}
    (inside : LogInside directory log) (there : directory.Within path ∨ path.Within directory) :
    ResultInside directory id (makeDirectory disk log path) := by
  unfold makeDirectory
  split
  · exact inside
  · exact logInside_append inside there

theorem closeSink_inside {log : List Effect} (inside : LogInside directory log) :
    ResultInside directory id (closeSink disk log) := by
  unfold closeSink
  split
  · exact inside
  · exact logInside_append inside trivial

theorem put_inside {state : Extraction} (chunk : Bytes) (inside : LogInside directory state.log) :
    ResultInside directory Extraction.log (put disk checkEvery state chunk) := by
  have written := writeBytes_inside disk chunk inside
  unfold put
  cases wrote : writeBytes disk state.log chunk with
  | error stopped =>
    rw [wrote] at written
    exact written
  | ok log =>
    rw [wrote] at written
    dsimp only
    split
    · split <;> exact written
    · exact written

theorem receive_inside {state : Extraction} (payload : Payload) (piece : Bytes)
    (inside : LogInside directory state.log) :
    ResultInside directory Extraction.log (receive disk checkEvery state payload piece) := by
  have taken := put_inside disk checkEvery piece inside
  unfold receive
  dsimp only
  split
  · cases took : put disk checkEvery state piece with
    | error stopped =>
      rw [took] at taken
      exact taken
    | ok next =>
      rw [took] at taken
      exact taken
  · exact inside

theorem finish_inside {state : Extraction} (payload : Payload)
    (inside : LogInside directory state.log) : TurnInside directory (finish disk state payload) := by
  have closed := closeSink_inside disk inside
  unfold finish
  split
  · exact inside
  · dsimp only
    split
    · cases closing : closeSink disk state.log with
      | error stopped =>
        rw [closing] at closed
        exact closed
      | ok log =>
        rw [closing] at closed
        exact closed
    · split <;> exact inside

theorem beginEntry_inside {state : Extraction} (header : Bytes)
    (inside : LogInside directory state.log) :
    TurnInside directory (beginEntry disk directory state header) := by
  unfold beginEntry
  dsimp only
  split
  · split <;> exact inside
  · split
    · exact inside
    · next destination named =>
      have within := safeJoin_within named
      have made := makeDirectory_inside disk inside (Or.inl within)
      have parent := makeDirectory_inside disk inside (within_parent within)
      split
      · cases making : makeDirectory disk state.log destination with
        | error stopped =>
          rw [making] at made
          exact made
        | ok log =>
          rw [making] at made
          exact made
      · cases making : makeDirectory disk state.log destination.parent with
        | error stopped =>
          rw [making] at parent
          exact parent
        | ok log =>
          rw [making] at parent
          have opened : LogInside directory (log ++ [.opened destination]) :=
            logInside_append parent within
          have closed := closeSink_inside disk opened
          dsimp only
          split
          · cases closing : closeSink disk (log ++ [.opened destination]) with
            | error stopped =>
              rw [closing] at closed
              exact closed
            | ok log =>
              rw [closing] at closed
              exact closed
          · exact opened

theorem turn_inside {state : Extraction} (inside : LogInside directory state.log) :
    TurnInside directory (turn disk directory checkEvery state) := by
  cases current : state.current with
  | none =>
    rw [turn_between disk directory checkEvery state current, readHeader]
    split
    · exact inside
    · dsimp only
      split
      · exact inside
      · exact beginEntry_inside disk (state.pending.take block)
          (show LogInside directory
            { state with pending := state.pending.drop block : Extraction }.log from inside)
  | some payload =>
    by_cases left : 0 < payload.remaining
    · by_cases empty : state.pending = []
      · rw [turn_starved disk directory checkEvery state current left empty]
        exact inside
      · have taken := receive_inside disk checkEvery payload
          (state.pending.take payload.remaining.toNat) inside
        cases took : receive disk checkEvery state payload
            (state.pending.take payload.remaining.toNat) with
        | error stopped =>
          rw [turn_refused disk directory state current left empty took]
          rw [took] at taken
          exact taken
        | ok next =>
          obtain ⟨kind, _, turned⟩ := turn_received disk directory state current left empty took
          rw [took] at taken
          rw [turned]
          split
          · exact taken
          · exact finish_inside disk _ taken
    · rw [turn_finishing disk directory checkEvery state current left]
      exact finish_inside disk payload inside

/-- Every call of an unpacking is inside its directory. -/
theorem extractInto_inside (source : List Bytes) (broken : Option String) :
    LogInside directory (extractInto disk directory checkEvery source broken).log := by
  have consumed := Machine.kept_consume (machine disk directory checkEvery)
    (fun state => LogInside directory state.log) (fun stopped => LogInside directory stopped.1)
    (fun state inside => turn_inside disk checkEvery inside) (fun state piece inside => inside) .start source
    (fun effect member => nomatch member)
  unfold extractInto
  split
  · exact fun effect member => absurd member not_mem_nil
  unfold unpack conclude
  split
  · next same =>
    rw [same] at consumed
    exact consumed
  · next same =>
    rw [same] at consumed
    split
    · exact consumed
    · split
      · exact consumed
      · split <;> exact consumed

end

/-! ### The file tree after them -/

/-- A surface that differs from a file tree inside a directory only, has no link more, and has
no file open outside. -/
structure ChangedInside (directory : Place) (tree : Tree) (surface : Surface) : Prop where
  standing : Standing directory surface.tree
  outside : ∀ parts, ¬directory.parts <+: parts → surface.tree parts = tree parts
  links : ∀ parts target, surface.tree parts = some (.link target) →
    tree parts = some (.link target)
  sink : ∀ parts, surface.sink = some parts →
    directory.parts <+: parts ∧ parts ≠ directory.parts

theorem changedInside_update {directory : Place} {tree : Tree} {surface : Surface}
    (inside : ChangedInside directory tree surface) {parts : List (List Char)} {bytes : Bytes}
    (within : directory.parts <+: parts) (below : parts ≠ directory.parts)
    (sink : Option (List (List Char)))
    (kept : ∀ other, sink = some other → directory.parts <+: other ∧ other ≠ directory.parts) :
    ChangedInside directory tree
      ⟨Function.update surface.tree parts (some (.file bytes)), sink⟩ := by
  refine ⟨?_, ?_, ?_, kept⟩
  · intro other leads
    have differ : other ≠ parts := by
      rintro rfl
      exact below (leads.eq_of_length (le_antisymm leads.length_le within.length_le))
    show Function.update surface.tree parts (some (.file bytes)) other = some .directory
    rw [update_of_ne differ]
    exact inside.standing other leads
  · intro other apart
    have differ : other ≠ parts := by
      rintro rfl
      exact apart within
    show Function.update surface.tree parts (some (.file bytes)) other = tree other
    rw [update_of_ne differ]
    exact inside.outside other apart
  · intro other target linked
    have linked' : Function.update surface.tree parts (some (.file bytes)) other =
        some (.link target) := linked
    by_cases same : other = parts
    · rw [same, update_self] at linked'
      exact nomatch linked'
    · rw [update_of_ne same] at linked'
      exact inside.links other target linked'

theorem changedInside_apply {directory : Place} {tree : Tree} {surface : Surface}
    (inside : ChangedInside directory tree surface) {effect : Effect}
    (there : effect.Inside directory) :
    ChangedInside directory tree (surface.apply effect) := by
  have shut : ChangedInside directory tree { surface with sink := none } :=
    ⟨inside.standing, inside.outside, inside.links, fun parts impossible => nomatch impossible⟩
  cases effect with
  | mkdir path =>
    refine ⟨?_, ?_, ?_, inside.sink⟩
    · intro parts leads
      show (if _ then _ else _) = _
      rw [if_neg (fun both => by rw [inside.standing parts leads] at both; exact nomatch both.2)]
      exact inside.standing parts leads
    · intro parts apart
      show (if _ then _ else _) = _
      rw [if_neg]
      · exact inside.outside parts apart
      · rintro ⟨leads, missing⟩
        obtain within | onTheWay := there
        · obtain short | long := prefix_or_prefix_of_prefix within leads
          · exact apart short
          · rw [inside.standing parts long] at missing
            exact nomatch missing
        · rw [inside.standing parts (leads.trans onTheWay)] at missing
          exact nomatch missing
    · intro parts target linked
      have linked' : (if parts <+: path.parts ∧ surface.tree parts = none then some Node.directory
        else surface.tree parts) = some (.link target) := linked
      split at linked'
      · exact nomatch linked'
      · exact inside.links parts target linked'
  | opened path =>
    have below : surface.tree path.parts ≠ some .directory → path.parts ≠ directory.parts := by
      intro plain same
      rw [same] at plain
      exact plain (inside.standing directory.parts prefix_rfl)
    unfold Surface.apply
    dsimp only
    split
    · exact shut
    · exact shut
    · next plain _ =>
      have under := below (fun stands => plain stands)
      exact changedInside_update inside there under (some path.parts)
        fun other same => by rw [← Option.some.inj same]; exact ⟨there, under⟩
  | wrote byte =>
    unfold Surface.apply
    dsimp only
    split
    · exact inside
    · next parts open' =>
      obtain ⟨within, below⟩ := inside.sink parts open'
      split
      · exact changedInside_update inside within below surface.sink inside.sink
      · exact inside
  | closed => exact shut

/-- Calls inside a directory that stands change nothing outside it. -/
theorem replay_changedInside {directory : Place} {tree : Tree} (standing : Standing directory tree)
    (log : List Effect) (inside : LogInside directory log) :
    ChangedInside directory tree (replay tree log) := by
  have start : ChangedInside directory tree ⟨tree, none⟩ :=
    ⟨standing, fun _ _ => rfl, fun _ _ linked => linked, fun _ impossible => nomatch impossible⟩
  have general : ∀ (log : List Effect) (surface : Surface), LogInside directory log →
      ChangedInside directory tree surface →
      ChangedInside directory tree (log.foldl Surface.apply surface) := by
    intro log
    induction log with
    | nil => exact fun surface _ before => before
    | cons effect log inductionHypothesis =>
      intro surface inside before
      exact inductionHypothesis _
        (fun other member => inside other (mem_cons_of_mem _ member))
        (changedInside_apply before (inside effect mem_cons_self))
  exact general log _ inside start

/-- Whatever bytes an archive holds, unpacking it opens files at or under the directory only
and makes directories there or on the way there; replayed on any file tree in which the
directory stands, its calls change nothing that does not lie at or under the directory, and
make no link. -/
theorem extraction_stays_inside (disk : Disk) (directory : Place) (checkEvery : Option Nat)
    (source : List Bytes) (broken : Option String) :
    (∀ effect ∈ (extractInto disk directory checkEvery source broken).log,
      effect.Inside directory) ∧
    ∀ tree, Standing directory tree →
      (∀ parts,
        (replay tree (extractInto disk directory checkEvery source broken).log).tree parts ≠
          tree parts → directory.parts <+: parts) ∧
      ∀ parts target,
        (replay tree (extractInto disk directory checkEvery source broken).log).tree parts =
          some (.link target) → tree parts = some (.link target) := by
  have inside : LogInside directory (extractInto disk directory checkEvery source broken).log :=
    extractInto_inside disk checkEvery source broken
  refine ⟨inside, fun tree standing => ?_⟩
  have changed := replay_changedInside standing _ inside
  refine ⟨fun parts differ => ?_, changed.links⟩
  by_contra apart
  exact differ (changed.outside parts apart)

namespace Sample

/-- A file tree with nothing in the directory that is unpacked into. -/
def bareTree : Tree := fun parts => if parts <+: directory.parts then some .directory else none

theorem bareTree_standing : Standing directory bareTree :=
  fun _ leads => if_pos leads

/-- An archive of one file whose name climbs out of the directory and back into another. -/
def climbing : Bytes :=
  (tarChunks [⟨"../etc/passwd".toList, .file (.opened 3 0o644 0 [1, 2, 3] 3)⟩]).1.flatten

end Sample

/-- An archive whose entry climbs out of the directory leaves the file tree as it was. -/
theorem extraction_stays_inside_climbing :
    ∀ parts, (replay Sample.bareTree (extractInto Sample.disk Sample.directory none
      [Sample.climbing] none).log).tree parts ≠ Sample.bareTree parts →
        Sample.directory.parts <+: parts :=
  ((extraction_stays_inside Sample.disk Sample.directory none [Sample.climbing] none).2
    Sample.bareTree Sample.bareTree_standing).1

end Geeboard.Tar
