/-
This file is about the rows the panel keeps of a game's versions, and the servers
that are linked to them.

A version that is called something else by now has its old ids in the definition.
Before the versions are written, the row under an old id is given the new one, or,
where the new one has a row already, its servers are moved there and it is deleted.
The definition's audit keeps old ids apart from each other and from the ids in use,
so no server loses its version by that. But the audit compares them with the ids of
the definition alone, and the sources of versions bring ids of their own: the rows of
a version stay together exactly when none of those is an old id.
-/

import Geeboard.Games.FollowParts
import Mathlib.Data.List.Induction

namespace Geeboard.CatalogSync

open List
open Catalogs (Collation VersionChannel rank said summariseCatalog)
open Games.Follow (Download Engine GameDefinition GameVersion auditDefinition
  auditFormerIds_eq_nil)
open Systems

/-! ### The versions the sources offer -/

/-- A version somebody offered, with where it is to be had and the branch it tracks. -/
structure VersionCandidate extends Catalogs.VersionCandidate where
  image : Option String := none
  note : Option String := none
  download : Option Download := none
  branch : Option String := none
  buildId : Option String := none
  updatedAt : Option String := none
  providerId : String
  deriving DecidableEq, Repr

/-- What one source answered, and whether it failed, which it may do after it answered. -/
structure Answer where
  candidates : List VersionCandidate := []
  failed : Option String := none
  deriving DecidableEq, Repr

/-- A version of the definition, as the source that cannot fail offers it. -/
def offeredBy (version : GameVersion) : VersionCandidate where
  id := version.id
  label := version.label
  upstream := version.upstream
  released := some version.released
  channel := version.channel
  recommended := version.recommended
  supported := version.supported
  line := version.line
  image := some version.image
  note := some version.note
  download := version.download
  providerId := if version.followed then "registry" else "static"

/-- A source the definition names: its own versions, or somebody who is asked. -/
inductive Source where
  | static
  | asked (answer : Answer)
  deriving DecidableEq, Repr

def Source.answer (game : GameDefinition) : Source → Answer
  | static => { candidates := game.versions.map offeredBy }
  | asked answer => answer

/-- The first to claim an id has it. -/
def byId : List VersionCandidate → List VersionCandidate
  | [] => []
  | candidate :: candidates =>
    candidate :: (byId candidates).filter fun other => other.id != candidate.id

/-- Where the last candidate with a build of the branch is. -/
def branchAt (candidates : List VersionCandidate) (branch : String) : Option Nat :=
  ((candidates.zipIdx.filter fun placed =>
    said placed.1.branch == some branch && (said placed.1.buildId).isSome).getLast?).map (·.2)

/-- One version takes over the build of the branch it tracks, and the branch is done with. -/
def mergeBranch (fromProviders : List VersionCandidate)
    (objects : List VersionCandidate × List String) (version : GameVersion) :
    List VersionCandidate × List String :=
  match (said version.steamBranch).bind (branchAt fromProviders),
    fromProviders.findIdx? (fun candidate => candidate.id == version.id) with
  | some branchPlace, some targetPlace =>
    match objects.1[branchPlace]? with
    | none => objects
    | some branch =>
      (objects.1.modify targetPlace fun target =>
        { target with
          branch := branch.branch
          buildId := branch.buildId
          updatedAt := branch.updatedAt
          released := (said branch.released).or target.released },
        objects.2 ++ [branch.id])
  | _, _ => objects

/-- The candidates are objects, which are changed in place; none is given another id. -/
def mergeBranches (game : GameDefinition) (fromProviders : List VersionCandidate) :
    List VersionCandidate :=
  let merged := game.versions.foldl (mergeBranch fromProviders) (fromProviders, [])
  (byId merged.1).filter fun candidate => !merged.2.contains candidate.id

/-- What the language brings: how it sorts, compares texts for readers, and reads times. -/
structure Language where
  sort : ArraySort Catalogs.VersionCandidate
  sortWhole : ArraySort VersionCandidate
  locale : Collation
  time : String → Option Int
  readReleased : String → Option Int

structure VersionCatalog where
  candidates : List VersionCandidate
  recommended : Option String
  providerErrors : List String

/-- What all the sources offered, in the order of their rank. -/
def resolveVersions (language : Language) (game : GameDefinition) (sources : List Source) :
    VersionCatalog :=
  let answers := sources.map (Source.answer game)
  let offered := mergeBranches game (answers.flatMap Answer.candidates)
  { candidates := language.sortWhole.sort (fun first second => rank language.locale
      first.toVersionCandidate second.toVersionCandidate) offered
    recommended := (summariseCatalog language.sort language.locale game.base.id
      (offered.map VersionCandidate.toVersionCandidate) {}).recommended.map (·.id)
    providerErrors := answers.filterMap Answer.failed }

/-! ### The rows -/

inductive VersionSource where
  | static | steam | github | official | registry | manual
  deriving DecidableEq, Repr

def ORIGINS : String → Option VersionSource
  | "static" => some .static
  | "steam" => some .steam
  | "github" => some .github
  | "minecraft-launcher" => some .official
  | "terraria-official" => some .official
  | "registry" => some .registry
  | "manual" => some .manual
  | _ => none

/-- What a row says of its version. -/
structure Version where
  label : String
  upstream : Option String
  source : String
  note : String
  channel : VersionChannel
  origin : VersionSource
  supported : Bool
  recommended : Bool
  releasedAt : Option Int
  checksum : Option String
  deriving DecidableEq, Repr

/-- The branch a row's version tracks, and the build that was seen of it. -/
structure Branch where
  branch : Option String := none
  buildId : Option String := none
  branchUpdatedAt : Option Int := none
  deriving DecidableEq, Repr

structure VersionRow where
  id : Nat
  gameId : String
  slug : String
  version : Version
  tracked : Branch
  deriving DecidableEq, Repr

def VersionRow.isFor (game slug : String) (row : VersionRow) : Bool :=
  row.gameId == game && row.slug == slug

@[simp] theorem VersionRow.isFor_iff {game slug : String} {row : VersionRow} :
    row.isFor game slug = true ↔ row.gameId = game ∧ row.slug = slug := by
  unfold isFor
  rw [Bool.and_eq_true, beq_iff_eq, beq_iff_eq]

/-- The rows of all games, the next row's id, and the row each server is linked to. -/
structure Store where
  rows : List VersionRow
  nextId : Nat
  gameVersionId : String → Option Nat

def Store.find (store : Store) (game slug : String) : Option VersionRow :=
  store.rows.find? (VersionRow.isFor game slug)

/-- What the database sees to. -/
structure Store.Sound (store : Store) : Prop where
  ids : ∀ row ∈ store.rows, ∀ other ∈ store.rows, row.id = other.id → row = other
  slugs : ∀ row ∈ store.rows, ∀ other ∈ store.rows,
    row.gameId = other.gameId → row.slug = other.slug → row = other
  fresh : ∀ row ∈ store.rows, row.id < store.nextId

/-- A server is linked to the row of a version. -/
def Store.Linked (store : Store) (server game slug : String) : Prop :=
  ∃ row ∈ store.rows, store.gameVersionId server = some row.id ∧
    row.gameId = game ∧ row.slug = slug

/-! ### Renaming -/

def Store.setSlug (store : Store) (id : Nat) (slug : String) : Store :=
  { store with rows := store.rows.map fun row =>
      if row.id = id then { row with slug } else row }

/-- The servers of one row are moved to another. -/
def Store.relink (store : Store) (former current : Nat) : Store :=
  { store with gameVersionId := fun server =>
      if store.gameVersionId server = some former then some current
      else store.gameVersionId server }

/-- A row is deleted, and what is still linked to it is linked to nothing. -/
def Store.delete (store : Store) (id : Nat) : Store :=
  { store with
    rows := store.rows.filter fun row => row.id != id
    gameVersionId := fun server =>
      if store.gameVersionId server = some id then none else store.gameVersionId server }

/-- The row of one former id becomes the version's, or gives its servers to the one there is. -/
def renameOne (game versionId : String) (state : Store × Nat) (formerId : String) : Store × Nat :=
  match state.1.find game formerId with
  | none => state
  | some former =>
    match state.1.find game versionId with
    | none => (state.1.setSlug former.id versionId, state.2 + 1)
    | some current => ((state.1.relink former.id current.id).delete former.id, state.2 + 1)

/-- Every version's former ids, one after another, and how many rows were renamed. -/
def renameVersions (game : GameDefinition) (store : Store) : Store × Nat :=
  game.versions.foldl (fun state version =>
    version.formerIds.foldl (renameOne game.base.id version.id) state) (store, 0)

/-! ### Writing the versions -/

/-- The row of one version is made, or brought up to date. -/
def upsert (game : String) (store : Store) (slug : String) (version : Version) (branch : Branch)
    (known : Bool) : Store :=
  match store.find game slug with
  | none =>
    { store with
      rows := store.rows ++
        [{ id := store.nextId, gameId := game, slug, version, tracked := branch }]
      nextId := store.nextId + 1 }
  | some _ =>
    { store with rows := store.rows.map fun row =>
        if row.isFor game slug then
          { row with version, tracked := if known then branch else row.tracked }
        else row }

/-- Whether a build belongs to a branch its version does not declare. -/
def isStray (declared : Option String) (tracked : Branch) : Bool :=
  match tracked.branch with
  | none => false
  | some branch => declared != some branch

/-- The build of a branch the version no longer tracks is forgotten. -/
def forgetBranch (game : String) (store : Store) (slug : String) (declared : Option String) :
    Store :=
  { store with rows := store.rows.map fun row =>
      if row.isFor game slug && isStray declared row.tracked then { row with tracked := {} }
      else row }

/-- What is written of a candidate. -/
def versionOf (language : Language) (catalog : VersionCatalog) (candidate : VersionCandidate) :
    Version where
  label := candidate.label
  upstream := candidate.upstream
  source := candidate.image.getD ((candidate.download.map Download.url).getD "")
  note := candidate.note.getD ""
  channel := candidate.channel
  origin := (ORIGINS candidate.providerId).getD .manual
  supported := candidate.supported
  recommended := some candidate.id == catalog.recommended
  releasedAt := (said candidate.released).bind language.readReleased
  checksum := candidate.download.bind Download.sha256

def branchOf (language : Language) (candidate : VersionCandidate) : Branch where
  branch := candidate.branch
  buildId := candidate.buildId
  branchUpdatedAt := (said candidate.updatedAt).bind language.time

/-- The branch that the definition has a version track. -/
def declaredBranch (game : GameDefinition) (id : String) : Option String :=
  (game.versions.find? fun version => version.id == id).bind fun version => said version.steamBranch

/-- One candidate is written; what is known of its branch is kept where nobody was heard. -/
def writeCandidate (language : Language) (game : GameDefinition) (catalog : VersionCatalog)
    (heard : Bool) (store : Store) (candidate : VersionCandidate) : Store :=
  let known := (said candidate.buildId).isSome || heard
  let store := upsert game.base.id store candidate.id (versionOf language catalog candidate)
    (branchOf language candidate) known
  if known then store
  else forgetBranch game.base.id store candidate.id (declaredBranch game candidate.id)

/-- One game's part of the sync. -/
def syncGame (language : Language) (game : GameDefinition) (sources : List Source)
    (offline : Bool) (store : Store) : Store :=
  let catalog := resolveVersions language game sources
  let heard := !offline && catalog.providerErrors.isEmpty
  catalog.candidates.foldl (writeCandidate language game catalog heard)
    (renameVersions game store).1

/-! ### What one renaming does -/

variable {game gameId slug formerId versionId server : String} {store : Store}

theorem Store.find_eq_some {row : VersionRow} (found : store.find game slug = some row) :
    row ∈ store.rows ∧ row.gameId = game ∧ row.slug = slug :=
  ⟨mem_of_find?_eq_some found, VersionRow.isFor_iff.mp (find?_some found)⟩

theorem Store.find_eq_none : store.find game slug = none ↔
    ∀ row ∈ store.rows, row.gameId = game → row.slug ≠ slug := by
  unfold find
  rw [find?_eq_none]
  simp only [VersionRow.isFor_iff, not_and]

/-- What is called by one id is called by another. -/
def renamed (game formerId versionId gameId slug : String) : String :=
  if gameId = game ∧ slug = formerId then versionId else slug

/-- A store after one row went from a former id to the id of its version. -/
structure Renamed (game formerId versionId : String) (store after : Store) : Prop where
  sound : after.Sound
  moved : ∀ server gameId slug, store.Linked server gameId slug →
    after.Linked server gameId (renamed game formerId versionId gameId slug)
  rows : ∀ row ∈ after.rows, ∃ old ∈ store.rows, row.gameId = old.gameId ∧
    row.slug = renamed game formerId versionId old.gameId old.slug

theorem renamed_setSlug (sound : store.Sound) {former : VersionRow}
    (found : store.find game formerId = some former) (free : store.find game versionId = none) :
    Renamed game formerId versionId store (store.setSlug former.id versionId) := by
  obtain ⟨formerIn, ofGame, called⟩ := Store.find_eq_some found
  have new := Store.find_eq_none.mp free
  have slugOf : ∀ row ∈ store.rows, (if row.id = former.id then { row with slug := versionId }
      else row).slug = renamed game formerId versionId row.gameId row.slug := by
    intro row rowIn
    unfold renamed
    by_cases same : row.id = former.id
    · rw [sound.ids row rowIn former formerIn same, if_pos rfl, if_pos ⟨ofGame, called⟩]
    · rw [if_neg same, if_neg]
      rintro ⟨gameOf, slugOf⟩
      exact same (congrArg VersionRow.id (sound.slugs row rowIn former formerIn
        (gameOf.trans ofGame.symm) (slugOf.trans called.symm)))
  have idOf : ∀ row : VersionRow, (if row.id = former.id then { row with slug := versionId }
      else row).id = row.id := fun row => by split <;> rfl
  have gameOf : ∀ row : VersionRow, (if row.id = former.id then { row with slug := versionId }
      else row).gameId = row.gameId := fun row => by split <;> rfl
  refine ⟨⟨?_, ?_, ?_⟩, ?_, ?_⟩
  rotate_left 3
  · rintro server gameId slug ⟨row, rowIn, linked, rfl, rfl⟩
    exact ⟨_, List.mem_map_of_mem rowIn, by rw [idOf]; exact linked, gameOf row, slugOf row rowIn⟩
  all_goals
    unfold Store.setSlug
    simp only [List.forall_mem_map, idOf, gameOf]
  · exact fun old oldIn => ⟨old, oldIn, rfl, slugOf old oldIn⟩
  · intro old oldIn second secondIn same
    rw [sound.ids old oldIn second secondIn same]
  · intro old oldIn second secondIn sameGame sameSlug
    rw [slugOf old oldIn, slugOf second secondIn] at sameSlug
    rw [sound.slugs old oldIn second secondIn sameGame ?_]
    unfold renamed at sameSlug
    split at sameSlug <;> rename_i first
    · split at sameSlug <;> rename_i isFormer
      · rw [first.2, isFormer.2]
      · exact absurd sameSlug.symm (new second secondIn (sameGame ▸ first.1))
    · split at sameSlug <;> rename_i isFormer
      · exact absurd sameSlug (new old oldIn (sameGame.trans isFormer.1))
      · exact sameSlug
  · exact sound.fresh

theorem renamed_merge (sound : store.Sound) (apart : versionId ≠ formerId)
    {former current : VersionRow} (found : store.find game formerId = some former)
    (has : store.find game versionId = some current) :
    Renamed game formerId versionId store
      ((store.relink former.id current.id).delete former.id) := by
  obtain ⟨formerIn, ofGame, called⟩ := Store.find_eq_some found
  obtain ⟨currentIn, currentGame, currentCalled⟩ := Store.find_eq_some has
  have other : current.id ≠ former.id := by
    intro same
    rw [sound.ids current currentIn former formerIn same, called] at currentCalled
    exact apart currentCalled.symm
  have mem : ∀ row, row ∈ ((store.relink former.id current.id).delete former.id).rows ↔
      row ∈ store.rows ∧ row.id ≠ former.id := by
    intro row
    show row ∈ store.rows.filter _ ↔ _
    rw [mem_filter, bne_iff_ne]
  have relinked (server : String) :
      ((store.relink former.id current.id).delete former.id).gameVersionId server =
        if store.gameVersionId server = some former.id then some current.id
        else store.gameVersionId server := by
    refine if_neg ?_
    show ¬(if store.gameVersionId server = some former.id then _ else _) = _
    split
    · exact fun same => other (Option.some.inj same)
    · assumption
  have kept : ∀ row ∈ store.rows, row.id ≠ former.id →
      renamed game formerId versionId row.gameId row.slug = row.slug := by
    intro row rowIn notFormer
    refine if_neg ?_
    rintro ⟨gameOf, slugOf⟩
    exact notFormer (congrArg VersionRow.id (sound.slugs row rowIn former formerIn
      (gameOf.trans ofGame.symm) (slugOf.trans called.symm)))
  refine ⟨⟨?_, ?_, ?_⟩, ?_, ?_⟩
  · exact fun row rowIn second secondIn =>
      sound.ids row ((mem row).mp rowIn).1 second ((mem second).mp secondIn).1
  · exact fun row rowIn second secondIn =>
      sound.slugs row ((mem row).mp rowIn).1 second ((mem second).mp secondIn).1
  · exact fun row rowIn => sound.fresh row ((mem row).mp rowIn).1
  · rintro server gameId slug ⟨row, rowIn, linked, rfl, rfl⟩
    by_cases isFormer : row.id = former.id
    · rw [sound.ids row rowIn former formerIn isFormer] at linked ⊢
      refine ⟨current, (mem current).mpr ⟨currentIn, other⟩, ?_, currentGame.trans ofGame.symm,
        currentCalled.trans (if_pos ⟨ofGame, called⟩).symm⟩
      rw [relinked, if_pos linked]
    · refine ⟨row, (mem row).mpr ⟨rowIn, isFormer⟩, ?_, rfl, (kept row rowIn isFormer).symm⟩
      rw [relinked, linked, if_neg fun same => isFormer (Option.some.inj same)]
  · intro row rowIn
    obtain ⟨rowIn, notFormer⟩ := (mem row).mp rowIn
    exact ⟨row, rowIn, rfl, (kept row rowIn notFormer).symm⟩

theorem renamed_none (sound : store.Sound) (none : store.find game formerId = none) :
    Renamed game formerId versionId store store := by
  have kept : ∀ row ∈ store.rows,
      renamed game formerId versionId row.gameId row.slug = row.slug :=
    fun row rowIn => if_neg fun same => Store.find_eq_none.mp none row rowIn same.1 same.2
  refine ⟨sound, ?_, fun row rowIn => ⟨row, rowIn, rfl, (kept row rowIn).symm⟩⟩
  rintro server gameId slug ⟨row, rowIn, linked, rfl, rfl⟩
  exact ⟨row, rowIn, linked, rfl, (kept row rowIn).symm⟩

theorem renameOne_renamed (game : String) (sound : store.Sound) (apart : versionId ≠ formerId)
    (count : Nat) :
    Renamed game formerId versionId store
      (renameOne game versionId (store, count) formerId).1 := by
  unfold renameOne
  split
  · exact renamed_none sound ‹_›
  · split
    · exact renamed_setSlug sound ‹_› ‹_›
    · exact renamed_merge sound apart ‹_› ‹_›

/-! ### What all of them do -/

/-- The former ids of a definition, each with the id it was given up for. -/
def renames (game : GameDefinition) : List (String × String) :=
  game.versions.flatMap fun version => version.formerIds.map fun formerId => (version.id, formerId)

theorem renameVersions_eq (game : GameDefinition) (store : Store) :
    renameVersions game store = (renames game).foldl (fun state rename =>
      renameOne game.base.id rename.1 state rename.2) (store, 0) := by
  unfold renameVersions renames
  rw [foldl_flatMap]
  simp only [foldl_map]

theorem map_snd_renames (game : GameDefinition) :
    (renames game).map Prod.snd = game.versions.flatMap GameVersion.formerIds := by
  unfold renames
  rw [map_flatMap]
  simp only [List.map_map, Function.comp_def, List.map_id']

theorem mem_renames {game : GameDefinition} {rename : String × String} :
    rename ∈ renames game ↔
      ∃ version ∈ game.versions, version.id = rename.1 ∧ rename.2 ∈ version.formerIds := by
  unfold renames
  rw [mem_flatMap]
  constructor
  · rintro ⟨version, versionIn, renameIn⟩
    obtain ⟨formerId, formerIn, rfl⟩ := List.mem_map.mp renameIn
    exact ⟨version, versionIn, rfl, formerIn⟩
  · rintro ⟨version, versionIn, same, formerIn⟩
    exact ⟨version, versionIn, List.mem_map.mpr ⟨rename.2, formerIn, by rw [same]⟩⟩

/-- Former ids are there once each, and none of them is in use. -/
def Apart (renames : List (String × String)) : Prop :=
  (renames.map Prod.snd).Nodup ∧ ∀ rename ∈ renames, ∀ other ∈ renames, rename.1 ≠ other.2

theorem apart_renames {engine : Engine} {game : GameDefinition}
    (passes : auditDefinition engine game = []) :
    Apart (renames game) ∧
      ∀ rename ∈ renames game, ∀ version ∈ game.versions, version.id ≠ rename.2 := by
  unfold auditDefinition at passes
  simp only [append_eq_nil_iff] at passes
  obtain ⟨nodup, apart⟩ := auditFormerIds_eq_nil.mp passes.1.1.1.2
  have notInUse : ∀ rename ∈ renames game, ∀ version ∈ game.versions, version.id ≠ rename.2 := by
    intro rename renameIn version versionIn same
    obtain ⟨former, formerIn, _, formerId⟩ := mem_renames.mp renameIn
    exact (apart rename.2 (mem_flatMap.mpr ⟨former, formerIn, formerId⟩)).2
      (List.mem_map.mpr ⟨version, versionIn, same⟩)
  refine ⟨⟨by rw [map_snd_renames]; exact nodup, ?_⟩, notInUse⟩
  intro rename renameIn other otherIn
  obtain ⟨version, versionIn, same, _⟩ := mem_renames.mp renameIn
  exact same ▸ notInUse other otherIn version versionIn

/-- What an id is called once everything was renamed. -/
def calledAfter (game : String) (renames : List (String × String)) (gameId slug : String) :
    String :=
  renames.foldl (fun slug rename => renamed game rename.2 rename.1 gameId slug) slug

theorem calledAfter_of_unnamed {renames : List (String × String)}
    (unnamed : gameId = game → ∀ rename ∈ renames, rename.2 ≠ slug) :
    calledAfter game renames gameId slug = slug := by
  induction renames with
  | nil => rfl
  | cons rename renames inductionHypothesis =>
    have same : renamed game rename.2 rename.1 gameId slug = slug :=
      if_neg fun named => unnamed named.1 rename mem_cons_self named.2.symm
    show calledAfter game renames gameId (renamed game rename.2 rename.1 gameId slug) = slug
    rw [same]
    exact inductionHypothesis fun ofGame other otherIn =>
      unnamed ofGame other (mem_cons_of_mem _ otherIn)

theorem calledAfter_of_mem {renames : List (String × String)} (apart : Apart renames)
    {rename : String × String} (renameIn : rename ∈ renames) :
    calledAfter game renames game rename.2 = rename.1 := by
  induction renames with
  | nil => cases renameIn
  | cons first renames inductionHypothesis =>
    have later : Apart renames :=
      ⟨(nodup_cons.mp apart.1).2, fun one oneIn other otherIn =>
        apart.2 one (mem_cons_of_mem _ oneIn) other (mem_cons_of_mem _ otherIn)⟩
    show calledAfter game renames game (renamed game first.2 first.1 game rename.2) = rename.1
    rcases mem_cons.mp renameIn with rfl | renameIn
    · have named : renamed game rename.2 rename.1 game rename.2 = rename.1 := if_pos ⟨rfl, rfl⟩
      rw [named]
      exact calledAfter_of_unnamed fun _ other otherIn same =>
        apart.2 rename mem_cons_self other (mem_cons_of_mem _ otherIn) same.symm
    · have other : renamed game first.2 first.1 game rename.2 = rename.2 :=
        if_neg fun named : game = game ∧ rename.2 = first.2 =>
          (nodup_cons.mp apart.1).1 (named.2 ▸ List.mem_map_of_mem renameIn)
      rw [other]
      exact inductionHypothesis later renameIn

/-- A store after all the renamings of a game. -/
structure AllRenamed (game : String) (renames : List (String × String)) (store after : Store) :
    Prop where
  sound : after.Sound
  moved : ∀ server gameId slug, store.Linked server gameId slug →
    after.Linked server gameId (calledAfter game renames gameId slug)
  gone : ∀ row ∈ after.rows, row.gameId = game → ∀ rename ∈ renames, row.slug ≠ rename.2

theorem allRenamed_foldl (game : String) (sound : store.Sound) {renames : List (String × String)}
    (apart : Apart renames) (count : Nat) :
    AllRenamed game renames store (renames.foldl (fun state rename =>
      renameOne game rename.1 state rename.2) (store, count)).1 := by
  induction renames using List.reverseRecOn with
  | nil => exact ⟨sound, fun _ _ _ linked => linked, fun _ _ _ _ none => nomatch none⟩
  | append_singleton renames rename inductionHypothesis =>
    have earlier : ∀ {other}, other ∈ renames → other ∈ renames ++ [rename] :=
      fun otherIn => mem_append_left _ otherIn
    have last : rename ∈ renames ++ [rename] := mem_append_right _ (mem_singleton_self _)
    have before := inductionHypothesis
      ⟨(nodup_append.mp (map_append ▸ apart.1)).1,
        fun one oneIn other otherIn => apart.2 one (earlier oneIn) other (earlier otherIn)⟩
    rw [foldl_append]
    have step := renameOne_renamed game before.sound
      (apart.2 rename last rename last) (renames.foldl (fun state rename =>
        renameOne game rename.1 state rename.2) (store, count)).2
    refine ⟨step.sound, ?_, ?_⟩
    · intro server gameId slug linked
      have moved := step.moved server gameId _ (before.moved server gameId slug linked)
      unfold calledAfter at moved ⊢
      rw [foldl_append]
      exact moved
    · intro row rowIn ofGame other otherIn same
      obtain ⟨old, oldIn, gameOf, slugOf⟩ := step.rows row rowIn
      rw [slugOf] at same
      unfold renamed at same
      split at same <;> rename_i named
      · exact apart.2 rename last other otherIn same
      · rcases mem_append.mp otherIn with otherIn | otherIn
        · exact before.gone old oldIn (gameOf ▸ ofGame) other otherIn same
        · cases mem_singleton.mp otherIn
          exact named ⟨gameOf ▸ ofGame, same⟩

/-- Where no row has a former id, there is nothing to rename. -/
theorem foldl_renameOne_of_gone {renames : List (String × String)}
    (gone : ∀ row ∈ store.rows, row.gameId = game → ∀ rename ∈ renames, row.slug ≠ rename.2)
    (count : Nat) :
    renames.foldl (fun state rename => renameOne game rename.1 state rename.2) (store, count) =
      (store, count) := by
  induction renames with
  | nil => rfl
  | cons rename renames inductionHypothesis =>
    have none : store.find game rename.2 = none := Store.find_eq_none.mpr
      fun row rowIn ofGame => gone row rowIn ofGame rename mem_cons_self
    have same : renameOne game rename.1 (store, count) rename.2 = (store, count) := by
      unfold renameOne
      rw [none]
    rw [foldl_cons, same]
    exact inductionHypothesis fun row rowIn ofGame other otherIn =>
      gone row rowIn ofGame other (mem_cons_of_mem _ otherIn)

/-! ### What writing a version does -/

variable {language : Language} {definition : GameDefinition} {catalog : VersionCatalog}
variable {heard : Bool} {candidate : VersionCandidate}

/-- What becomes of the row of a version that is written. -/
def rewrite (language : Language) (definition : GameDefinition) (catalog : VersionCatalog)
    (heard : Bool) (candidate : VersionCandidate) (row : VersionRow) : VersionRow :=
  { row with
    version := versionOf language catalog candidate
    tracked :=
      if (said candidate.buildId).isSome || heard then branchOf language candidate
      else if isStray (declaredBranch definition candidate.id) row.tracked then {}
      else row.tracked }

theorem rewrite_rewrite (row : VersionRow) :
    rewrite language definition catalog heard candidate
        (rewrite language definition catalog heard candidate row) =
      rewrite language definition catalog heard candidate row := by
  unfold rewrite
  congr 1
  split
  · rfl
  · by_cases stray : isStray (declaredBranch definition candidate.id) row.tracked = true
    · simp only [stray, if_true, ite_self]
    · rw [if_neg stray, if_neg stray]

/-- What becomes of every row when one version is written that has one. -/
def rewriteFor (language : Language) (definition : GameDefinition) (catalog : VersionCatalog)
    (heard : Bool) (candidate : VersionCandidate) (row : VersionRow) : VersionRow :=
  if row.isFor definition.base.id candidate.id then
    rewrite language definition catalog heard candidate row
  else row

theorem key_rewriteFor (row : VersionRow) :
    (rewriteFor language definition catalog heard candidate row).id = row.id ∧
      (rewriteFor language definition catalog heard candidate row).gameId = row.gameId ∧
      (rewriteFor language definition catalog heard candidate row).slug = row.slug := by
  unfold rewriteFor
  split <;> exact ⟨rfl, rfl, rfl⟩

theorem forget_row {row : VersionRow} (isFor : row.isFor gameId slug = true)
    (declared : Option String) :
    (if row.isFor gameId slug && isStray declared row.tracked then { row with tracked := {} }
      else row) =
      { row with tracked := if isStray declared row.tracked then {} else row.tracked } := by
  rw [isFor, Bool.true_and]
  by_cases stray : isStray declared row.tracked = true
  · rw [if_pos stray, if_pos stray]
  · rw [if_neg stray, if_neg stray]

theorem writeCandidate_of_some (has : store.find definition.base.id candidate.id ≠ none) :
    writeCandidate language definition catalog heard store candidate =
      { store with rows :=
          store.rows.map (rewriteFor language definition catalog heard candidate) } := by
  obtain ⟨found, has⟩ := Option.ne_none_iff_exists'.mp has
  unfold writeCandidate upsert rewriteFor rewrite
  rw [has]
  cases known : (said candidate.buildId).isSome || heard with
  | true => rfl
  | false =>
    show forgetBranch _ _ _ _ = _
    unfold forgetBranch
    simp only [List.map_map, Bool.false_eq_true, if_false]
    congr 1
    refine map_congr_left fun row _ => ?_
    by_cases isFor : row.isFor definition.base.id candidate.id = true
    · simp only [Function.comp_apply, isFor, if_true]
      exact @forget_row _ _
        { row with version := versionOf language catalog candidate } isFor _
    · simp only [Function.comp_apply, isFor, Bool.false_and, Bool.false_eq_true, if_false]

theorem writeCandidate_of_none (language : Language) (catalog : VersionCatalog) (heard : Bool)
    (none : store.find definition.base.id candidate.id = none) :
    ∃ row : VersionRow, row.id = store.nextId ∧
      row.isFor definition.base.id candidate.id = true ∧
      rewrite language definition catalog heard candidate row = row ∧
      writeCandidate language definition catalog heard store candidate =
        { store with rows := store.rows ++ [row], nextId := store.nextId + 1 } := by
  let new : VersionRow :=
    { id := store.nextId
      gameId := definition.base.id
      slug := candidate.id
      version := versionOf language catalog candidate
      tracked := branchOf language candidate }
  have isNew : VersionRow.isFor definition.base.id candidate.id new = true :=
    VersionRow.isFor_iff.mpr ⟨rfl, rfl⟩
  have others : ∀ row ∈ store.rows, row.isFor definition.base.id candidate.id = false := by
    intro row rowIn
    exact Bool.eq_false_iff.mpr (find?_eq_none.mp none row rowIn)
  refine ⟨rewrite language definition catalog heard candidate new, rfl, isNew,
    rewrite_rewrite new, ?_⟩
  unfold writeCandidate upsert rewrite
  rw [none]
  cases known : (said candidate.buildId).isSome || heard with
  | true => rfl
  | false =>
    show forgetBranch _ _ _ _ = _
    unfold forgetBranch
    simp only [map_append, map_cons, map_nil]
    congr 2
    · refine (map_congr_left fun row rowIn => ?_).trans (List.map_id' _)
      rw [others row rowIn, Bool.false_and, if_neg Bool.false_ne_true]
    · exact congrArg (fun row => [row]) (forget_row isNew _)

theorem sound_writeCandidate (sound : store.Sound) :
    (writeCandidate language definition catalog heard store candidate).Sound := by
  by_cases none : store.find definition.base.id candidate.id = none
  · obtain ⟨new, newId, isNew, _, written⟩ := writeCandidate_of_none language catalog heard none
    obtain ⟨newGame, newSlug⟩ := VersionRow.isFor_iff.mp isNew
    have other := Store.find_eq_none.mp none
    rw [written]
    have extended {Same : VersionRow → VersionRow → Prop}
        (one : ∀ row ∈ store.rows, ∀ second ∈ store.rows, Same row second → row = second)
        (apart : ∀ row ∈ store.rows, ¬Same row new ∧ ¬Same new row) :
        ∀ row ∈ store.rows ++ [new], ∀ second ∈ store.rows ++ [new], Same row second →
          row = second := by
      simp only [forall_mem_append, forall_mem_singleton]
      exact ⟨fun row rowIn => ⟨one row rowIn, fun same => absurd same (apart row rowIn).1⟩,
        fun row rowIn same => absurd same (apart row rowIn).2, fun _ => trivial⟩
    have slugs := @extended (fun row second => row.gameId = second.gameId ∧ row.slug = second.slug)
      (fun row rowIn second secondIn same =>
        sound.slugs row rowIn second secondIn same.1 same.2)
    refine ⟨extended sound.ids fun row rowIn => ?_, fun row rowIn second secondIn ofGame ofSlug =>
      slugs (fun row rowIn => ?_) row rowIn second secondIn ⟨ofGame, ofSlug⟩, ?_⟩
    · rw [newId]
      exact ⟨(sound.fresh row rowIn).ne, (sound.fresh row rowIn).ne'⟩
    · rw [newGame, newSlug]
      exact ⟨fun same => other row rowIn same.1 same.2,
        fun same => other row rowIn same.1.symm same.2.symm⟩
    · intro row rowIn
      rcases mem_append.mp rowIn with rowIn | rowIn
      · exact Nat.lt_succ_of_lt (sound.fresh row rowIn)
      · rw [mem_singleton.mp rowIn, newId]
        exact Nat.lt_succ_self _
  · rw [writeCandidate_of_some none]
    have keys := @key_rewriteFor language definition catalog heard candidate
    refine ⟨?_, ?_, ?_⟩ <;> simp only [List.forall_mem_map, (keys _).1, (keys _).2.1, (keys _).2.2]
    · exact fun old oldIn second secondIn same =>
        congrArg _ (sound.ids old oldIn second secondIn same)
    · exact fun old oldIn second secondIn ofGame ofSlug =>
        congrArg _ (sound.slugs old oldIn second secondIn ofGame ofSlug)
    · exact sound.fresh

/-- A server stays with the row it is linked to, whatever is written. -/
theorem linked_writeCandidate (linked : store.Linked server gameId slug) :
    (writeCandidate language definition catalog heard store candidate).Linked server gameId
      slug := by
  obtain ⟨row, rowIn, isLinked, ofGame, called⟩ := linked
  by_cases none : store.find definition.base.id candidate.id = none
  · obtain ⟨new, _, _, _, written⟩ := writeCandidate_of_none language catalog heard none
    rw [written]
    exact ⟨row, mem_append_left _ rowIn, isLinked, ofGame, called⟩
  · rw [writeCandidate_of_some none]
    obtain ⟨id, gameOf, slugOf⟩ :=
      @key_rewriteFor language definition catalog heard candidate row
    exact ⟨_, List.mem_map_of_mem rowIn, isLinked.trans (congrArg some id.symm),
      gameOf.trans ofGame, slugOf.trans called⟩

/-- What rows there are for an id, after something was written. -/
theorem row_writeCandidate {row : VersionRow}
    (rowIn : row ∈ (writeCandidate language definition catalog heard store candidate).rows) :
    row.isFor definition.base.id candidate.id = true ∧
        rewrite language definition catalog heard candidate row = row ∨
      row.isFor definition.base.id candidate.id = false ∧ row ∈ store.rows := by
  by_cases none : store.find definition.base.id candidate.id = none
  · obtain ⟨new, _, isNew, settled, written⟩ := writeCandidate_of_none language catalog heard none
    rw [written] at rowIn
    rcases mem_append.mp rowIn with rowIn | rowIn
    · exact Or.inr ⟨Bool.eq_false_iff.mpr (find?_eq_none.mp none row rowIn), rowIn⟩
    · rw [mem_singleton.mp rowIn]
      exact Or.inl ⟨isNew, settled⟩
  · rw [writeCandidate_of_some none] at rowIn
    obtain ⟨old, oldIn, rfl⟩ := List.mem_map.mp rowIn
    by_cases isFor : old.isFor definition.base.id candidate.id = true
    · rw [rewriteFor, if_pos isFor]
      exact Or.inl ⟨isFor, rewrite_rewrite old⟩
    · rw [rewriteFor, if_neg isFor]
      exact Or.inr ⟨Bool.eq_false_iff.mpr isFor, oldIn⟩

/-- What is in the catalog stays there. -/
theorem mem_writeCandidate {row : VersionRow} (rowIn : row ∈ store.rows)
    (other : row.isFor definition.base.id candidate.id = false) :
    row ∈ (writeCandidate language definition catalog heard store candidate).rows := by
  by_cases none : store.find definition.base.id candidate.id = none
  · obtain ⟨new, _, _, _, written⟩ := writeCandidate_of_none language catalog heard none
    rw [written]
    exact mem_append_left _ rowIn
  · rw [writeCandidate_of_some none]
    exact List.mem_map.mpr ⟨row, rowIn, if_neg (Bool.eq_false_iff.mp other)⟩

theorem find_writeCandidate :
    ∃ row ∈ (writeCandidate language definition catalog heard store candidate).rows,
      row.isFor definition.base.id candidate.id = true := by
  by_cases none : store.find definition.base.id candidate.id = none
  · obtain ⟨new, _, isNew, _, written⟩ := writeCandidate_of_none language catalog heard none
    rw [written]
    exact ⟨new, mem_append_right _ (mem_singleton_self _), isNew⟩
  · obtain ⟨row, found⟩ := Option.ne_none_iff_exists'.mp none
    rw [writeCandidate_of_some none]
    have isFor := find?_some found
    exact ⟨_, List.mem_map_of_mem (mem_of_find?_eq_some found), by
      rw [rewriteFor, if_pos isFor]
      exact isFor⟩

/-! ### What writing all of them does -/

theorem nodup_byId : ∀ candidates : List VersionCandidate,
    ((byId candidates).map fun candidate => candidate.id).Nodup
  | [] => nodup_nil
  | candidate :: candidates => by
    rw [byId, map_cons, nodup_cons]
    refine ⟨?_, (nodup_byId candidates).sublist (filter_sublist.map _)⟩
    intro there
    obtain ⟨other, otherIn, same⟩ := List.mem_map.mp there
    exact absurd same (bne_iff_ne.mp (mem_filter.mp otherIn).2)

theorem nodup_candidates (language : Language) (definition : GameDefinition)
    (sources : List Source) :
    ((resolveVersions language definition sources).candidates.map fun candidate =>
      candidate.id).Nodup :=
  ((language.sortWhole.perm _ _).map _).nodup_iff.mpr
    ((nodup_byId _).sublist (filter_sublist.map _))

/-- The row of a candidate is there, and writing the candidate leaves it as it is. -/
def Settled (language : Language) (definition : GameDefinition) (catalog : VersionCatalog)
    (heard : Bool) (store : Store) (candidate : VersionCandidate) : Prop :=
  (∃ row ∈ store.rows, row.isFor definition.base.id candidate.id = true) ∧
    ∀ row ∈ store.rows, row.isFor definition.base.id candidate.id = true →
      rewrite language definition catalog heard candidate row = row

theorem settled_self :
    Settled language definition catalog heard
      (writeCandidate language definition catalog heard store candidate) candidate := by
  refine ⟨find_writeCandidate, fun row rowIn isFor => ?_⟩
  rcases row_writeCandidate rowIn with ⟨_, settled⟩ | ⟨notFor, _⟩
  · exact settled
  · exact absurd isFor (Bool.eq_false_iff.mp notFor)

theorem settled_other {other : VersionCandidate} (apart : candidate.id ≠ other.id)
    (settled : Settled language definition catalog heard store candidate) :
    Settled language definition catalog heard
      (writeCandidate language definition catalog heard store other) candidate := by
  have notFor : ∀ row : VersionRow, row.isFor definition.base.id candidate.id = true →
      row.isFor definition.base.id other.id = false := by
    intro row isFor
    refine Bool.eq_false_iff.mpr fun isForOther => apart ?_
    exact (VersionRow.isFor_iff.mp isFor).2.symm.trans (VersionRow.isFor_iff.mp isForOther).2
  obtain ⟨⟨row, rowIn, isFor⟩, same⟩ := settled
  refine ⟨⟨row, mem_writeCandidate rowIn (notFor row isFor), isFor⟩, fun row rowIn isFor => ?_⟩
  rcases row_writeCandidate rowIn with ⟨isForOther, _⟩ | ⟨_, wasIn⟩
  · exact absurd isForOther (Bool.eq_false_iff.mp (notFor row isFor))
  · exact same row wasIn isFor

theorem writeCandidate_of_settled
    (settled : Settled language definition catalog heard store candidate) :
    writeCandidate language definition catalog heard store candidate = store := by
  obtain ⟨⟨row, rowIn, isFor⟩, same⟩ := settled
  have has : store.find definition.base.id candidate.id ≠ none :=
    fun none => find?_eq_none.mp none row rowIn isFor
  rw [writeCandidate_of_some has]
  have kept : store.rows.map (rewriteFor language definition catalog heard candidate) =
      store.rows := by
    refine (map_congr_left fun row rowIn => ?_).trans (List.map_id' _)
    unfold rewriteFor
    split
    · exact same row rowIn ‹_›
    · rfl
  rw [kept]

/-- A store after all the candidates were written. -/
structure AllWritten (language : Language) (definition : GameDefinition)
    (catalog : VersionCatalog) (heard : Bool) (candidates : List VersionCandidate)
    (store after : Store) : Prop where
  sound : after.Sound
  linked : ∀ server gameId slug, store.Linked server gameId slug → after.Linked server gameId slug
  rows : ∀ row ∈ after.rows, row ∈ store.rows ∨
    ∃ candidate ∈ candidates, row.isFor definition.base.id candidate.id = true
  settled : ∀ candidate ∈ candidates,
    Settled language definition catalog heard after candidate

theorem allWritten_foldl (language : Language) (definition : GameDefinition)
    (catalog : VersionCatalog) (heard : Bool) (sound : store.Sound)
    {candidates : List VersionCandidate}
    (distinct : (candidates.map fun candidate => candidate.id).Nodup) :
    AllWritten language definition catalog heard candidates store
      (candidates.foldl (writeCandidate language definition catalog heard) store) := by
  induction candidates using List.reverseRecOn with
  | nil => exact ⟨sound, fun _ _ _ linked => linked, fun _ rowIn => Or.inl rowIn,
      fun _ none => nomatch none⟩
  | append_singleton candidates candidate inductionHypothesis =>
    rw [map_append, nodup_append] at distinct
    have before := inductionHypothesis distinct.1
    rw [foldl_append]
    refine ⟨sound_writeCandidate before.sound, fun server gameId slug linked =>
      linked_writeCandidate (before.linked server gameId slug linked), ?_, ?_⟩
    · intro row rowIn
      rcases row_writeCandidate rowIn with ⟨isFor, _⟩ | ⟨_, wasIn⟩
      · exact Or.inr ⟨candidate, mem_append_right _ (mem_singleton_self _), isFor⟩
      · rcases before.rows row wasIn with wasIn | ⟨other, otherIn, isFor⟩
        · exact Or.inl wasIn
        · exact Or.inr ⟨other, mem_append_left _ otherIn, isFor⟩
    · intro other otherIn
      rcases mem_append.mp otherIn with otherIn | otherIn
      · exact settled_other (distinct.2.2 _ (List.mem_map_of_mem otherIn) _
          (mem_singleton_self _)) (before.settled other otherIn)
      · rw [mem_singleton.mp otherIn]
        exact settled_self

theorem foldl_writeCandidate_of_settled {candidates : List VersionCandidate}
    (settled : ∀ candidate ∈ candidates,
      Settled language definition catalog heard store candidate) :
    candidates.foldl (writeCandidate language definition catalog heard) store = store := by
  induction candidates with
  | nil => rfl
  | cons candidate candidates inductionHypothesis =>
    rw [foldl_cons, writeCandidate_of_settled (settled candidate mem_cons_self)]
    exact inductionHypothesis fun other otherIn =>
      settled other (mem_cons_of_mem _ otherIn)

/-! ### A renamed version keeps its servers -/

/-- What is promised of a game's rows and of the servers linked to them. -/
structure KeepsServers (game : GameDefinition) (store after : Store) : Prop where
  sound : after.Sound
  moved : ∀ server, ∀ version ∈ game.versions, ∀ slug,
    slug = version.id ∨ slug ∈ version.formerIds →
    store.Linked server game.base.id slug → after.Linked server game.base.id version.id
  gone : ∀ row ∈ after.rows, row.gameId = game.base.id →
    ∀ version ∈ game.versions, row.slug ∉ version.formerIds
  kept : ∀ server gameId slug, store.Linked server gameId slug →
    ∃ slug, after.Linked server gameId slug

variable {engine : Engine}

theorem keepsServers_renameVersions (passes : auditDefinition engine definition = [])
    (sound : store.Sound) :
    KeepsServers definition store (renameVersions definition store).1 := by
  obtain ⟨apart, notInUse⟩ := apart_renames passes
  rw [renameVersions_eq]
  have all := allRenamed_foldl definition.base.id sound apart 0
  refine ⟨all.sound, ?_, ?_, ?_⟩
  · intro server version versionIn slug called linked
    have moved := all.moved server definition.base.id slug linked
    rcases called with rfl | former
    · rwa [calledAfter_of_unnamed fun _ rename renameIn same =>
        notInUse rename renameIn version versionIn same.symm] at moved
    · have renameIn : (version.id, slug) ∈ renames definition :=
        mem_renames.mpr ⟨version, versionIn, rfl, former⟩
      rwa [calledAfter_of_mem apart renameIn] at moved
  · intro row rowIn ofGame version versionIn former
    exact all.gone row rowIn ofGame (version.id, row.slug)
      (mem_renames.mpr ⟨version, versionIn, rfl, former⟩) rfl
  · exact fun server gameId slug linked => ⟨_, all.moved server gameId slug linked⟩

/-- Where no row has a former id, renaming again does nothing. -/
theorem renameVersions_of_gone
    (gone : ∀ row ∈ store.rows, row.gameId = definition.base.id →
      ∀ version ∈ definition.versions, row.slug ∉ version.formerIds) :
    renameVersions definition store = (store, 0) := by
  rw [renameVersions_eq]
  refine foldl_renameOne_of_gone (fun row rowIn ofGame rename renameIn same => ?_) 0
  obtain ⟨version, versionIn, _, former⟩ := mem_renames.mp renameIn
  exact gone row rowIn ofGame version versionIn (same ▸ former)

/-- The renaming by itself always keeps the servers of a renamed version and its rows. The sync keeps
them exactly when no source offers a version under an id that another one gave up. -/
theorem keeps_servers_iff (language : Language) (engine : Engine) (game : GameDefinition)
    (sources : List Source) (offline : Bool) (store : Store)
    (passes : auditDefinition engine game = []) (sound : store.Sound) :
    (KeepsServers game store (renameVersions game store).1 ∧
      renameVersions game (renameVersions game store).1 = ((renameVersions game store).1, 0)) ∧
    ((KeepsServers game store (syncGame language game sources offline store) ∧
      syncGame language game sources offline (syncGame language game sources offline store) =
        syncGame language game sources offline store) ↔
      ∀ candidate ∈ (resolveVersions language game sources).candidates,
        ∀ version ∈ game.versions, candidate.id ∉ version.formerIds) := by
  have atFirst := keepsServers_renameVersions passes sound
  have written := allWritten_foldl language game (resolveVersions language game sources)
    (!offline && (resolveVersions language game sources).providerErrors.isEmpty) atFirst.sound
    (nodup_candidates language game sources)
  refine ⟨⟨atFirst, renameVersions_of_gone atFirst.gone⟩, ?_⟩
  constructor
  · rintro ⟨syncing, _⟩ candidate candidateIn version versionIn former
    obtain ⟨⟨row, rowIn, isFor⟩, _⟩ := written.settled candidate candidateIn
    obtain ⟨ofGame, called⟩ := VersionRow.isFor_iff.mp isFor
    exact syncing.gone row rowIn ofGame version versionIn (called ▸ former)
  · intro none
    have gone : ∀ row ∈ (syncGame language game sources offline store).rows,
        row.gameId = game.base.id → ∀ version ∈ game.versions, row.slug ∉ version.formerIds := by
      intro row rowIn ofGame version versionIn former
      rcases written.rows row rowIn with wasIn | ⟨candidate, candidateIn, isFor⟩
      · exact atFirst.gone row wasIn ofGame version versionIn former
      · exact none candidate candidateIn version versionIn
          ((VersionRow.isFor_iff.mp isFor).2 ▸ former)
    refine ⟨⟨written.sound, ?_, gone, ?_⟩, ?_⟩
    · intro server version versionIn slug called linked
      exact written.linked server _ _ (atFirst.moved server version versionIn slug called linked)
    · intro server gameId slug linked
      obtain ⟨now, moved⟩ := atFirst.kept server gameId slug linked
      exact ⟨now, written.linked server _ _ moved⟩
    · show List.foldl _ (renameVersions game (syncGame language game sources offline store)).1 _ = _
      rw [renameVersions_of_gone gone]
      exact foldl_writeCandidate_of_settled written.settled

/-! ### One sync after another -/

/-- However often games are synced, in whatever order, with whatever their sources answer, no
server loses its link, and what it is linked to is a version of its game. -/
theorem links_kept (language : Language) (engine : Engine)
    (syncs : List (GameDefinition × List Source × Bool)) (store : Store)
    (passes : ∀ sync ∈ syncs, auditDefinition engine sync.1 = []) (sound : store.Sound) :
    (syncs.foldl (fun store sync => syncGame language sync.1 sync.2.1 sync.2.2 store)
      store).Sound ∧
    ∀ server gameId slug, store.Linked server gameId slug → ∃ slug,
      (syncs.foldl (fun store sync => syncGame language sync.1 sync.2.1 sync.2.2 store)
        store).Linked server gameId slug := by
  induction syncs generalizing store with
  | nil => exact ⟨sound, fun server gameId slug linked => ⟨slug, linked⟩⟩
  | cons sync syncs inductionHypothesis =>
    obtain ⟨passesFirst, passesRest⟩ := forall_mem_cons.mp passes
    have atFirst := keepsServers_renameVersions passesFirst sound
    have written : AllWritten language sync.1 _ _ _ _
        (syncGame language sync.1 sync.2.1 sync.2.2 store) :=
      allWritten_foldl _ _ _ _ atFirst.sound (nodup_candidates language sync.1 sync.2.1)
    obtain ⟨soundAfter, kept⟩ := inductionHypothesis _ passesRest written.sound
    refine ⟨soundAfter, fun server gameId slug linked => ?_⟩
    obtain ⟨now, moved⟩ := atFirst.kept server gameId slug linked
    exact kept server gameId now (written.linked server gameId now moved)

/-- After a sync each version that was offered has exactly one row, and that has the facts the version
was offered with, and its branch and build where they are known. -/
theorem offered_written (language : Language) (engine : Engine) (game : GameDefinition)
    (sources : List Source) (offline : Bool) (store : Store)
    (passes : auditDefinition engine game = []) (sound : store.Sound) :
    ∀ candidate ∈ (resolveVersions language game sources).candidates,
      (∃! row, row ∈ (syncGame language game sources offline store).rows ∧
        row.isFor game.base.id candidate.id = true) ∧
      ∀ row ∈ (syncGame language game sources offline store).rows,
        row.isFor game.base.id candidate.id = true →
        row.version = versionOf language (resolveVersions language game sources) candidate ∧
        ((said candidate.buildId).isSome ||
            (!offline && (resolveVersions language game sources).providerErrors.isEmpty) →
          row.tracked = branchOf language candidate) := by
  have written : AllWritten language game _ _ _ _
      (syncGame language game sources offline store) :=
    allWritten_foldl _ _ _ _ (keepsServers_renameVersions passes sound).sound
      (nodup_candidates language game sources)
  intro candidate candidateIn
  obtain ⟨⟨row, rowIn, isFor⟩, settled⟩ := written.settled candidate candidateIn
  refine ⟨⟨row, ⟨rowIn, isFor⟩, ?_⟩, fun row rowIn isFor => ?_⟩
  · rintro other ⟨otherIn, otherFor⟩
    obtain ⟨ofGame, called⟩ := VersionRow.isFor_iff.mp isFor
    obtain ⟨otherGame, otherCalled⟩ := VersionRow.isFor_iff.mp otherFor
    exact written.sound.slugs other otherIn row rowIn (otherGame.trans ofGame.symm)
      (otherCalled.trans called.symm)
  · have asWritten := settled row rowIn isFor
    exact ⟨(congrArg VersionRow.version asWritten).symm,
      fun known => (congrArg VersionRow.tracked asWritten).symm.trans (if_pos known)⟩

/-! ### A game with one renamed version -/

/-- A language that sorts by insertion and reads no times. -/
def plainLanguage : Language where
  sort := ArraySort.insertion
  sortWhole := ArraySort.insertion
  locale := Collation.units
  time _ := none
  readReleased _ := none

/-- No tags are followed here, so no pattern is compiled. -/
def plainEngine : Engine where
  language := Games.ascii
  compile _ := none
  versions := BlindSort.insertion
  releases := ArraySort.insertion

def betaVersion : GameVersion where
  id := "beta"
  formerIds := ["steam-beta"]
  label := "Beta"
  image := "games/beta:1"
  download := some { url := "https://files/beta.zip", sha256 := some "0b3c" }

def betaGame : GameDefinition where
  base := { id := "game", name := "Game", config := [] }
  versions := [betaVersion]

def betaRow : VersionRow where
  id := 0
  gameId := "game"
  slug := "steam-beta"
  version :=
    { label := "Game · beta"
      upstream := none
      source := ""
      note := ""
      channel := .preview
      origin := .steam
      supported := false
      recommended := false
      releasedAt := none
      checksum := none }
  tracked := {}

/-- One server, linked to the row the branch had before the definition had a version for it. -/
def betaRows : Store where
  rows := [betaRow]
  nextId := 1
  gameVersionId server := if server = "server" then some 0 else none

theorem betaRows_sound : betaRows.Sound := by
  refine ⟨?_, ?_, ?_⟩ <;> simp only [betaRows, forall_mem_singleton]
  · exact fun _ => trivial
  · exact fun _ _ => trivial
  · exact Nat.zero_lt_one

/-- What the definition ships has no id that was given up, so the sync keeps the server. -/
theorem keeps_servers_iff_shipped :
    KeepsServers betaGame betaRows (syncGame plainLanguage betaGame [.static] true betaRows) ∧
      syncGame plainLanguage betaGame [.static] true
          (syncGame plainLanguage betaGame [.static] true betaRows) =
        syncGame plainLanguage betaGame [.static] true betaRows :=
  (keeps_servers_iff plainLanguage plainEngine betaGame [.static] true betaRows
    (by decide +kernel) betaRows_sound).2.mpr (by decide +kernel)

theorem links_kept_twice : ∃ slug,
    (syncGame plainLanguage betaGame [.static] false
      (syncGame plainLanguage betaGame [.static] true betaRows)).Linked "server" "game" slug :=
  (links_kept plainLanguage plainEngine [(betaGame, [.static], true), (betaGame, [.static], false)]
    betaRows (by decide +kernel) betaRows_sound).2 "server" "game" "steam-beta"
    ⟨betaRow, mem_cons_self, rfl, rfl, rfl⟩

/-- The row that was renamed is the version's one row, with the checksum of its download. -/
theorem offered_written_beta :
    (∃! row, row ∈ (syncGame plainLanguage betaGame [.static] true betaRows).rows ∧
      row.isFor "game" "beta" = true) ∧
    ∀ row ∈ (syncGame plainLanguage betaGame [.static] true betaRows).rows,
      row.isFor "game" "beta" = true → row.version =
        { label := "Beta"
          upstream := none
          source := "games/beta:1"
          note := ""
          channel := .stable
          origin := .static
          supported := true
          recommended := true
          releasedAt := none
          checksum := some "0b3c" } := by
  have written := offered_written plainLanguage plainEngine betaGame [.static] true betaRows
    (by decide +kernel) betaRows_sound (offeredBy betaVersion) (by decide +kernel)
  refine ⟨written.1, fun row rowIn isFor => (written.2 row rowIn isFor).1.trans ?_⟩
  decide +kernel

/-- Steam lists the branch still. -/
def betaBranch : Source :=
  .asked { candidates := [{
    id := "steam-beta"
    label := "Game · beta"
    branch := some "beta"
    buildId := some "17"
    supported := false
    providerId := "steam" }] }

/-- The row that was renamed is made once more, under the id it was renamed from. -/
theorem former_row_returns :
    ¬ ∀ (language : Language) (engine : Engine) (game : GameDefinition) (sources : List Source)
      (offline : Bool) (store : Store), auditDefinition engine game = [] → store.Sound →
      KeepsServers game store (syncGame language game sources offline store) := by
  intro claimed
  have keeps := claimed plainLanguage plainEngine betaGame [.static, betaBranch] false betaRows
    (by decide +kernel) betaRows_sound
  have again : (syncGame plainLanguage betaGame [.static, betaBranch] false betaRows).rows.any
      (VersionRow.isFor "game" "steam-beta") = true := by decide +kernel
  obtain ⟨row, rowIn, isFor⟩ := List.any_eq_true.mp again
  obtain ⟨ofGame, called⟩ := VersionRow.isFor_iff.mp isFor
  exact keeps.gone row rowIn ofGame betaVersion mem_cons_self
    (called ▸ mem_cons_self)

end Geeboard.CatalogSync
