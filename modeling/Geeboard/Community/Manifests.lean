/-
This file is about the games that somebody wrote: how a stored manifest comes to be
a definition.

A manifest is kept with the hash of its canonical form, which is the same whatever
the order of the keys. What is loaded is checked again: hashed, and put through the
validator. A definition that was validated once in a process is kept under the
revision and its hash, and so is the one a manifest that no longer passes was last
validated into, with a mark.
-/

import Geeboard.Community.Canonical
import Geeboard.Games.Render

namespace Geeboard.Community

open List Function
open Canonical (canonicalJson)
open Games
open Text (Json Units)

/-! ### Revisions -/

inductive ManifestState where
  | pending | approved | rejected | superseded | retired
  deriving DecidableEq, Repr

/-- A revision of a game: the manifest as it was given, with the hash recorded for it. -/
structure Revision where
  id : Nat
  gameId : String
  revision : Nat
  manifest : Json
  hash : String
  state : ManifestState

/-- What a manifest is checked against: the registries its images may come from, where that is
asked, and whether its expressions are timed. -/
structure Policy where
  registries : Option (List String)
  probe : Bool
  deriving DecidableEq, Repr

/-- The checks of a process: how it hashes a text and validates a manifest. -/
structure Checks where
  hashOf : Units → String
  validateManifest : Policy → Json → Option GameDefinition

/-- The policy a stored manifest is read back under. -/
def loadPolicy : Policy := ⟨none, false⟩

namespace Checks

variable (checks : Checks)

def hashed (manifest : Json) : String :=
  checks.hashOf (canonicalJson manifest)

/-- The validation of a revision's manifest, where it hashes to what was recorded and is of the
game it is stored under. -/
def validationOf (row : Revision) : Option GameDefinition :=
  if checks.hashed row.manifest = row.hash then
    (checks.validateManifest loadPolicy row.manifest).filter fun game => game.id = row.gameId
  else none

end Checks

/-! ### Loading -/

/-- What a process keeps of what it has loaded, by revision and hash: the definition, and whether
it is one that no longer passes. -/
structure Cache where
  validated : Nat × String → Option GameDefinition
  stale : Nat × String → Bool

def Cache.empty : Cache := ⟨fun _ => none, fun _ => false⟩

def Cache.keep (cache : Cache) (key : Nat × String) (game : GameDefinition) (stale : Bool) :
    Cache :=
  ⟨Function.update cache.validated key (some game), Function.update cache.stale key stale⟩

/-- The definition of one revision, whether it is a stale one, and whether it is to be kept beside
the manifest. -/
structure Loaded where
  cache : Cache
  definition : Option (GameDefinition × Bool)
  keep : Bool

/-- The definition a manifest last validated into, when it is still one of the game. -/
def keptDefinition (row : Revision) (definition : Option GameDefinition) : Option GameDefinition :=
  definition.filter fun game => game.id = row.gameId

def Revision.key (row : Revision) : Nat × String := (row.id, row.hash)

section Loading

variable (checks : Checks)

def definitionOf (cache : Cache) (row : Revision) (definition : Option GameDefinition) : Loaded :=
  match cache.validated row.key with
  | some game => ⟨cache, some (game, cache.stale row.key), false⟩
  | none =>
    if checks.hashed row.manifest = row.hash then
      match checks.validateManifest loadPolicy row.manifest with
      | none =>
        -- The hash says that this was approved, so the checks are what changed.
        match keptDefinition row definition with
        | some game => ⟨cache.keep row.key game true, some (game, true), false⟩
        | none => ⟨cache, none, false⟩
      | some game =>
        if game.id = row.gameId then
          ⟨cache.keep row.key game false, some (game, false), definition ≠ some game⟩
        else ⟨cache, none, false⟩
    else ⟨cache, none, false⟩

/-- What a load comes to: the games to be offered, those only served, those that no longer pass,
and the definitions to be kept beside their manifests. -/
structure Report where
  active : List GameDefinition
  retired : List GameDefinition
  withStale : List GameDefinition
  toKeep : List (Nat × GameDefinition)
  deriving DecidableEq, Repr

/-- A revision's definition put where it belongs. -/
def Report.add (report : Report) (row : Revision) (loaded : Loaded) : Report :=
  match loaded.definition with
  | none => report
  | some (game, true) => { report with withStale := game :: report.withStale }
  | some (game, false) =>
    let kept := if loaded.keep then (row.id, game) :: report.toKeep else report.toKeep
    if row.state = .approved then
      { report with active := game :: report.active, toKeep := kept }
    else { report with retired := game :: report.retired, toKeep := kept }

/-- The revisions one after the other, each with what the ones before left in the cache. -/
def loadAll (cache : Cache) : List (Revision × Option GameDefinition) → Cache × Report
  | [] => (cache, ⟨[], [], [], []⟩)
  | (row, definition) :: rest =>
    let loaded := definitionOf checks cache row definition
    let (cache, report) := loadAll loaded.cache rest
    (cache, report.add row loaded)

/-! ### What is loaded is what validates -/

/-- A definition that is not a stale one. -/
def unlessStale (stale : Bool) (game : GameDefinition) : Option GameDefinition :=
  if stale then none else some game

/-- What the cache says of a revision is what it validates into: that, or nothing and marked. -/
def Cache.Right (cache : Cache) (row : Revision) : Prop :=
  ∀ game, cache.validated row.key = some game →
    checks.validationOf row = unlessStale (cache.stale row.key) game

/-- The definition where it is not a stale one. -/
def Loaded.fresh (loaded : Loaded) : Option GameDefinition :=
  loaded.definition.bind fun found => unlessStale found.2 found.1

variable {checks} {cache : Cache} {row : Revision}

theorem validationOf_hashed (hashed : checks.hashed row.manifest = row.hash) :
    checks.validationOf row =
      (checks.validateManifest loadPolicy row.manifest).filter fun game => game.id = row.gameId :=
  if_pos hashed

theorem definitionOf_fresh (right : cache.Right checks row) (definition : Option GameDefinition) :
    (definitionOf checks cache row definition).fresh = checks.validationOf row := by
  unfold definitionOf Loaded.fresh
  split
  · rename_i game found
    rw [right game found]
    rfl
  · split
    · rename_i hashed
      rw [validationOf_hashed hashed]
      split
      · rename_i fails
        rw [fails]
        split <;> rfl
      · rename_i game passes
        rw [passes, Option.filter_some]
        split
        · rename_i own
          rw [if_pos (decide_eq_true own)]
          rfl
        · rename_i other
          rw [if_neg (by rw [decide_eq_false other]; exact Bool.false_ne_true)]
          rfl
    · rename_i other
      exact (if_neg other).symm

theorem Cache.Right.keep {other : Revision} {game : GameDefinition} {stale : Bool}
    (right : cache.Right checks other)
    (same : row.key = other.key →
      checks.validationOf other = unlessStale stale game) :
    (cache.keep row.key game stale).Right checks other := by
  intro found is
  unfold Cache.keep at is ⊢
  dsimp only at is ⊢
  by_cases own : row.key = other.key
  · rw [own, update_self] at is
    rw [own, update_self, ← Option.some.inj is]
    exact same own
  · rw [update_of_ne (Ne.symm own)] at is ⊢
    exact right found is

theorem definitionOf_right {other : Revision} {definition : Option GameDefinition}
    (right : cache.Right checks other)
    (same : row.key = other.key → checks.validationOf other = checks.validationOf row) :
    (definitionOf checks cache row definition).cache.Right checks other := by
  unfold definitionOf
  split
  · exact right
  · split
    · rename_i hashed
      split
      · rename_i fails
        split
        · refine right.keep fun own => ?_
          rw [same own, validationOf_hashed hashed, fails]
          rfl
        · exact right
      · rename_i game passes
        split
        · rename_i is
          refine right.keep fun own => ?_
          rw [same own, validationOf_hashed hashed, passes, Option.filter_some,
            if_pos (decide_eq_true is)]
          rfl
        · exact right
    · exact right

theorem Report.add_active (report : Report) (loaded : Loaded) :
    (report.add row loaded).active =
      if row.state = .approved then loaded.fresh.toList ++ report.active else report.active := by
  unfold Report.add Loaded.fresh
  split
  · rename_i none_
    rw [none_]
    split <;> rfl
  · rename_i game found
    rw [found]
    split <;> rfl
  · rename_i game found
    rw [found]
    dsimp only
    split <;> rfl

/-- The validations of the revisions that are approved. -/
def offeredOf (checks : Checks) (rows : List Revision) : List GameDefinition :=
  (rows.filter fun row => row.state = .approved).filterMap checks.validationOf

theorem offeredOf_cons (rest : List Revision) :
    offeredOf checks (row :: rest) =
      if row.state = .approved then (checks.validationOf row).toList ++ offeredOf checks rest
      else offeredOf checks rest := by
  unfold offeredOf
  rw [filter_cons]
  by_cases approved : row.state = .approved
  · rw [if_pos (decide_eq_true approved), if_pos approved, filterMap_cons]
    cases checks.validationOf row <;> rfl
  · rw [if_neg (by rw [decide_eq_false approved]; exact Bool.false_ne_true), if_neg approved]

/-- Rows of one key validate into the same. -/
def Agree (checks : Checks) (rows : List Revision) : Prop :=
  ∀ row ∈ rows, ∀ other ∈ rows, row.key = other.key →
    checks.validationOf other = checks.validationOf row

theorem loadAll_active {rows : List (Revision × Option GameDefinition)}
    (right : ∀ row ∈ rows.map Prod.fst, cache.Right checks row)
    (agree : Agree checks (rows.map Prod.fst)) :
    (loadAll checks cache rows).2.active = offeredOf checks (rows.map Prod.fst) := by
  induction rows generalizing cache with
  | nil => rfl
  | cons pair rest inductionHypothesis =>
    obtain ⟨row, definition⟩ := pair
    rw [map_cons] at right agree ⊢
    obtain ⟨here, there⟩ := forall_mem_cons.mp right
    have later := @inductionHypothesis (definitionOf checks cache row definition).cache
      (fun other member => definitionOf_right (there other member) fun own =>
        agree row mem_cons_self other (mem_cons_of_mem _ member) own)
      fun one member other inside => agree one (mem_cons_of_mem _ member) other
        (mem_cons_of_mem _ inside)
    unfold loadAll
    dsimp only
    rw [Report.add_active, definitionOf_fresh here, later, offeredOf_cons]

theorem loadAll_right {other : Revision} {rows : List (Revision × Option GameDefinition)}
    (right : cache.Right checks other)
    (same : ∀ row ∈ rows.map Prod.fst, row.key = other.key →
      checks.validationOf other = checks.validationOf row) :
    (loadAll checks cache rows).1.Right checks other := by
  induction rows generalizing cache with
  | nil => exact right
  | cons pair rest inductionHypothesis =>
    obtain ⟨row, definition⟩ := pair
    rw [map_cons] at same
    obtain ⟨here, there⟩ := forall_mem_cons.mp same
    exact inductionHypothesis (definitionOf_right right here) there

theorem definitionOf_known {definition : Option GameDefinition} {key : Nat × String}
    {game : GameDefinition}
    (found : (definitionOf checks cache row definition).cache.validated key = some game) :
    (∃ before, cache.validated key = some before) ∨ key = row.key := by
  have kept : ∀ own stale, (cache.keep row.key own stale).validated key = some game →
      (∃ before, cache.validated key = some before) ∨ key = row.key := by
    intro own stale is
    by_cases same : key = row.key
    · exact .inr same
    · unfold Cache.keep at is
      dsimp only at is
      rw [update_of_ne same] at is
      exact .inl ⟨game, is⟩
  unfold definitionOf at found
  split at found
  · exact .inl ⟨game, found⟩
  · split at found
    · split at found
      · split at found
        · exact kept _ _ found
        · exact .inl ⟨game, found⟩
      · split at found
        · exact kept _ _ found
        · exact .inl ⟨game, found⟩
    · exact .inl ⟨game, found⟩

theorem loadAll_known {rows : List (Revision × Option GameDefinition)} {key : Nat × String}
    {game : GameDefinition} (found : (loadAll checks cache rows).1.validated key = some game) :
    (∃ before, cache.validated key = some before) ∨ ∃ row ∈ rows.map Prod.fst, key = row.key := by
  induction rows generalizing cache with
  | nil => exact .inl ⟨game, found⟩
  | cons pair rest inductionHypothesis =>
    obtain ⟨row, definition⟩ := pair
    rcases inductionHypothesis found with ⟨before, kept⟩ | ⟨other, member, same⟩
    · rcases definitionOf_known kept with known | own
      · exact .inl known
      · exact .inr ⟨row, mem_cons_self, own⟩
    · exact .inr ⟨other, mem_cons_of_mem _ member, same⟩

theorem mem_offeredOf {rows : List Revision} {game : GameDefinition} :
    game ∈ offeredOf checks rows ↔
      ∃ row ∈ rows, row.state = .approved ∧ checks.validationOf row = some game := by
  unfold offeredOf
  rw [mem_filterMap]
  constructor
  · rintro ⟨row, member, is⟩
    obtain ⟨inside, approved⟩ := mem_filter.mp member
    exact ⟨row, inside, of_decide_eq_true approved, is⟩
  · rintro ⟨row, inside, approved, is⟩
    exact ⟨row, mem_filter.mpr ⟨inside, decide_eq_true approved⟩, is⟩

end Loading

end Geeboard.Community
