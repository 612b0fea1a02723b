/-
This file is about which mods a build of a game loads, from what was found on disk.

Each mod is first judged against the build alone: which of its folders the build
reads, and whether the bounds of the mod.info read there let the build in. Then the
mods are judged against each other, in rounds: what needs a mod that is not loaded is
not loaded either, until a round changes nothing. The mods that are left are the
greatest set that needs nothing outside itself, and it is the same in whatever order
the mods were found.
-/

import Geeboard.Systems.Supports
import Geeboard.Text.Lines
import Mathlib.Data.Nat.Digits.Defs
import Mathlib.Data.List.Perm.Basic

namespace Geeboard.Games.ModBuilds

open List
open Systems (Supported kept)

/-! ### What was found -/

/-- One mod.info as the node reported it. -/
structure ModInfoFacts where
  folder : String
  id : String
  name : String
  versionMin : Option String
  versionMax : Option String
  require : List String := []
  deriving DecidableEq, Repr

/-- One mod inside a download, as the node found it on disk. -/
structure ModFacts where
  dir : String
  folders : List String
  infos : List ModInfoFacts
  deriving DecidableEq, Repr

/-- From which version on a game keeps a mod's files in folders for versions, and the folder
every version reads. -/
structure ModLayout where
  versionFoldersFrom : String
  common : String
  deriving DecidableEq, Repr

inductive BoundField
  | versionMin
  | versionMax
  deriving DecidableEq, Repr

inductive ModRefusal
  | olderLayout
  | newerLayout
  | noInfo (folder : Option String)
  | belowMin (bound : String)
  | aboveMax (bound : String)
  | badBound (field : BoundField) (bound : String)
  | missingRequirement (requires : List String)
  deriving DecidableEq, Repr

inductive ModVerdict
  | loaded (id name folder : String)
  | refused (id name : String) (refusal : ModRefusal)
  deriving DecidableEq, Repr

def ModVerdict.loads : ModVerdict → Bool
  | .loaded .. => true
  | .refused .. => false

def ModVerdict.id : ModVerdict → String
  | .loaded id .. => id
  | .refused id .. => id

def ModVerdict.name : ModVerdict → String
  | .loaded _ name _ => name
  | .refused _ name _ => name

/-! ### Versions -/

structure VersionNumbers where
  major : Nat
  minor : Nat
  patch : Nat
  deriving DecidableEq, Repr

/-- A run of one digit or more, and of so many at most. -/
def digitsUpTo (most : Nat) (text : List Char) : Option Nat :=
  if text ≠ [] ∧ text.length ≤ most ∧ text.all Char.isDigit then
    some (Nat.ofDigitChars 10 text 0)
  else none

/-- A bound of a mod.info: major and minor, and a patch or none. -/
def bound (text : String) : Option VersionNumbers :=
  match (Text.trimmed text.toList).splitOn '.' with
  | [major, minor] => do
    return ⟨← digitsUpTo 4 major, ← digitsUpTo 4 minor, 0⟩
  | [major, minor, patch] => do
    return ⟨← digitsUpTo 4 major, ← digitsUpTo 4 minor, ← digitsUpTo 6 patch⟩
  | _ => none

/-- The name of a folder read as a version. A second number of more digits than a minor has
is taken as the patch. -/
def folderVersion (name : String) : Option VersionNumbers :=
  match name.toList.splitOn '.' with
  | [major] => do
    return ⟨← digitsUpTo 4 major, 0, 0⟩
  | [major, second] => do
    let major ← digitsUpTo 4 major
    match digitsUpTo 4 second with
    | some minor => return ⟨major, minor, 0⟩
    | none => return ⟨major, 0, ← digitsUpTo 6 second⟩
  | [major, minor, patch] => do
    return ⟨← digitsUpTo 4 major, ← digitsUpTo 4 minor, ← digitsUpTo 6 patch⟩
  | _ => none

/-- Compared the way the game compares: major and minor, never the patch. -/
def line (left right : VersionNumbers) : Int :=
  if left.major ≠ right.major then left.major - right.major else left.minor - right.minor

def full (left right : VersionNumbers) : Int :=
  if line left right ≠ 0 then line left right else left.patch - right.patch

inductive LayoutKind
  | versioned
  | top
  deriving DecidableEq, Repr

/-- Which layout a game version reads mods in. -/
def layoutFor (layout : Option ModLayout) (game : VersionNumbers) : LayoutKind :=
  match layout.bind fun layout => folderVersion layout.versionFoldersFrom with
  | some from_ => if 0 ≤ line game from_ then .versioned else .top
  | none => .top

/-- The best folder so far, next to one more. -/
def better (game : VersionNumbers) (best : Option (String × VersionNumbers)) (name : String) :
    Option (String × VersionNumbers) :=
  match folderVersion name with
  | none => best
  | some version =>
    if 0 < line version game then best
    else
      match best with
      | none => some (name, version)
      | some held => if 0 < full version held.2 then some (name, version) else best

/-- The version folder a versioned build reads, of those a mod has. -/
def chosenFolder (folders : List String) (game : VersionNumbers) : Option String :=
  (folders.foldl (better game) none).map Prod.fst

/-! ### One mod -/

/-- The first mod.info found in a folder. -/
def ModFacts.infoIn (mod : ModFacts) (folder : String) : Option ModInfoFacts :=
  mod.infos.find? fun info => info.folder == folder

/-- The mod.info that the build reads. -/
def infoRead (mod : ModFacts) (layout : Option ModLayout) (game : VersionNumbers) :
    Option ModInfoFacts :=
  match layout with
  | none => mod.infoIn ""
  | some found =>
    if layoutFor layout game = .versioned then
      ((chosenFolder mod.folders game).bind mod.infoIn).or (mod.infoIn found.common)
    else mod.infoIn ""

/-- Why a build finds no mod.info where it looks. -/
def noInfoRefusal (mod : ModFacts) (layout : Option ModLayout) (game : VersionNumbers) :
    ModRefusal :=
  if layoutFor layout game = .versioned then
    if (mod.infoIn "").isSome ∧ mod.infos.all (fun info => info.folder == "") then .olderLayout
    else .noInfo (chosenFolder mod.folders game)
  else .newerLayout

/-- What a bound of the mod.info has against the game's version. -/
def boundRefusal (game : VersionNumbers) (field : BoundField) : Option String → Option ModRefusal
  | none => none
  | some text =>
    match bound text with
    | none => some (.badBound field text)
    | some parsed =>
      match field with
      | .versionMin => if line game parsed < 0 then some (.belowMin text) else none
      | .versionMax => if 0 < line game parsed then some (.aboveMax text) else none

def judgeMod (mod : ModFacts) (layout : Option ModLayout) (game : VersionNumbers) : ModVerdict :=
  match infoRead mod layout game with
  | none =>
    let fallback := (mod.infoIn "").or mod.infos.head?
    .refused ((fallback.map ModInfoFacts.id).getD mod.dir)
      ((fallback.map ModInfoFacts.name).getD mod.dir) (noInfoRefusal mod layout game)
  | some info =>
    match (boundRefusal game .versionMin info.versionMin).or
        (boundRefusal game .versionMax info.versionMax) with
    | some refusal => .refused info.id info.name refusal
    | none => .loaded info.id info.name info.folder

/-! ### The mods together -/

/-- The ids a `require=` names. A build that reads version folders takes the backslash before
each as punctuation. -/
def requiredIds (info : ModInfoFacts) (layout : LayoutKind) : List String :=
  (info.require.map fun entry =>
    String.ofList (Text.trimmed
      (if layout = .versioned then entry.toList.rtakeWhile (· != '\\') else entry.toList))).filter
    fun id => id ≠ ""

/-- What a mod needs that the build loads. -/
def needsOf (mod : ModFacts) (layout : LayoutKind) : ModVerdict → List String
  | .loaded _ _ folder =>
    match mod.infoIn folder with
    | some info => requiredIds info layout
    | none => []
  | .refused .. => []

/-- The ids of the mods that load so far. -/
def available (verdicts : List ModVerdict) : List String :=
  (verdicts.filter ModVerdict.loads).map ModVerdict.id

/-- What a mod needs and is not there. -/
def missing (present : List String) (needs : List String) : List String :=
  needs.filter fun id => !present.contains id

/-- Whether a mod that loads so far lacks something. -/
def lacks (present : List String) (verdict : ModVerdict) (needs : List String) : Bool :=
  verdict.loads && !(missing present needs).isEmpty

def judgeAgain (present : List String) (verdict : ModVerdict) (needs : List String) : ModVerdict :=
  if lacks present verdict needs then
    .refused verdict.id verdict.name (.missingRequirement (missing present needs))
  else verdict

/-- The rounds, of which so many are allowed at most. -/
def rounds (needs : List (List String)) : Nat → List ModVerdict → Option (List ModVerdict)
  | 0, _ => none
  | turns + 1, verdicts =>
    let present := available verdicts
    let changed := (List.zipWith (lacks present) verdicts needs).any id
    let judged := List.zipWith (judgeAgain present) verdicts needs
    if changed then rounds needs turns judged else some judged

/-- Every mod on a server, judged together. -/
def judgeServer (turns : Nat) (mods : List ModFacts) (layout : Option ModLayout)
    (game : VersionNumbers) : Option (List ModVerdict) :=
  let verdicts := mods.map fun mod => judgeMod mod layout game
  let kind := layoutFor layout game
  rounds (List.zipWith (fun mod verdict => needsOf mod kind verdict) mods verdicts) turns verdicts

/-! ### What a round does -/

section Rounds

variable (mods : List ModFacts) (needs : ModFacts → List String) (given : ModFacts → ModVerdict)

theorem mem_available {id : String} :
    id ∈ available (mods.map given) ↔
      ∃ mod ∈ mods, (given mod).loads = true ∧ (given mod).id = id := by
  simp only [available, List.mem_map, mem_filter]
  constructor
  · rintro ⟨verdict, ⟨⟨mod, member, rfl⟩, loads⟩, carries⟩
    exact ⟨mod, member, loads, carries⟩
  · rintro ⟨mod, member, loads, carries⟩
    exact ⟨given mod, ⟨⟨mod, member, rfl⟩, loads⟩, carries⟩

/-- What a round makes of each mod. -/
def again (mod : ModFacts) : ModVerdict :=
  judgeAgain (available (mods.map given)) (given mod) (needs mod)

/-- Whether a round refuses a mod. -/
def drops (mod : ModFacts) : Bool :=
  lacks (available (mods.map given)) (given mod) (needs mod)

theorem missing_of_perm {order : List ModFacts} (perm : order.Perm mods) (wanted : List String) :
    missing (available (order.map given)) wanted = missing (available (mods.map given)) wanted := by
  have same (id : String) : (available (order.map given)).contains id =
      (available (mods.map given)).contains id := by
    have members : id ∈ available (order.map given) ↔ id ∈ available (mods.map given) := by
      simp only [mem_available, perm.mem_iff]
    rw [Bool.eq_iff_iff, contains_iff_mem, contains_iff_mem, members]
  simp only [missing, same]

theorem rounds_succ {order : List ModFacts} (perm : order.Perm mods) (turns : Nat) :
    rounds (order.map needs) (turns + 1) (order.map given) =
      if mods.any (drops mods needs given) then
        rounds (order.map needs) turns (order.map (again mods needs given))
      else some (order.map (again mods needs given)) := by
  have judged : List.zipWith (judgeAgain (available (order.map given))) (order.map given)
      (order.map needs) = order.map (again mods needs given) := by
    rw [zipWith_map, zipWith_self]
    refine map_congr_left fun mod _ => ?_
    unfold again judgeAgain lacks
    rw [missing_of_perm mods given perm]
  have changed : (List.zipWith (lacks (available (order.map given))) (order.map given)
      (order.map needs)).any id = mods.any (drops mods needs given) := by
    have each (mod : ModFacts) :
        lacks (available (order.map given)) (given mod) (needs mod) = drops mods needs given mod := by
      unfold drops lacks
      rw [missing_of_perm mods given perm]
    rw [zipWith_map, zipWith_self, List.any_map, ← perm.any_eq]
    exact congrArg order.any (funext each)
  rw [rounds]
  simp only [judged, changed]

theorem again_of_kept {mod : ModFacts} (stays : drops mods needs given mod = false) :
    again mods needs given mod = given mod := by
  exact if_neg ((Bool.not_eq_true _).mpr stays)

theorem again_of_dropped {mod : ModFacts} (dropped : drops mods needs given mod = true) :
    (again mods needs given mod).loads = false := by
  have refuses : again mods needs given mod = .refused (given mod).id (given mod).name
      (.missingRequirement (missing (available (mods.map given)) (needs mod))) := if_pos dropped
  rw [refuses]
  rfl

/-- A round refuses exactly the mods that need what no loaded mod carries. -/
theorem loads_again {mod : ModFacts} :
    (again mods needs given mod).loads = true ↔
      (given mod).loads = true ∧ ∀ id ∈ needs mod, ∃ other ∈ mods,
        (given other).loads = true ∧ (given other).id = id := by
  have nothing : missing (available (mods.map given)) (needs mod) = [] ↔
      ∀ id ∈ needs mod, ∃ other ∈ mods, (given other).loads = true ∧ (given other).id = id := by
    rw [missing, filter_eq_nil_iff]
    refine forall₂_congr fun id _ => ?_
    rw [Bool.not_eq_true, Bool.not_eq_false', contains_iff_mem, mem_available]
  rw [← nothing]
  cases dropped : drops mods needs given mod with
  | true =>
    have lacking := dropped
    rw [drops, lacks, Bool.and_eq_true, Bool.not_eq_true', ← Bool.not_eq_true,
      List.isEmpty_iff] at lacking
    rw [again_of_dropped mods needs given dropped]
    simp only [Bool.false_eq_true, lacking.2, and_false]
  | false =>
    rw [again_of_kept mods needs given dropped]
    constructor
    · intro loads
      rw [drops, lacks, loads, Bool.true_and, Bool.not_eq_false', List.isEmpty_iff] at dropped
      exact ⟨loads, dropped⟩
    · exact fun both => both.1

theorem id_again (mod : ModFacts) : (again mods needs given mod).id = (given mod).id := by
  unfold again judgeAgain
  split <;> rfl

/-- A round that refuses a mod leaves fewer that load. -/
theorem countP_again_lt (dropped : mods.any (drops mods needs given) = true) :
    mods.countP (fun mod => (again mods needs given mod).loads) <
      mods.countP fun mod => (given mod).loads := by
  obtain ⟨mod, member, drop⟩ := List.any_eq_true.mp dropped
  have loads : (given mod).loads = true := (Bool.and_eq_true_iff.mp drop).1
  have fewer (other : ModFacts) : (again mods needs given other).loads =
      ((again mods needs given other).loads && (given other).loads) := by
    rw [Bool.eq_iff_iff, Bool.and_eq_true_iff]
    exact ⟨fun stays => ⟨stays, ((loads_again mods needs given).mp stays).1⟩, And.left⟩
  simp only [countP_eq_length_filter]
  rw [filter_congr fun other _ => fewer other, ← List.filter_filter]
  refine length_filter_lt_length_iff_exists.mpr
    ⟨mod, mem_filter.mpr ⟨member, loads⟩, ?_⟩
  rw [again_of_dropped mods needs given drop]
  exact Bool.false_ne_true

end Rounds

/-! ### What the rounds end at -/

/-- The mods that load under verdicts. -/
def loading (mods : List ModFacts) (judged : ModFacts → ModVerdict) : Set ModFacts :=
  {mod | mod ∈ mods ∧ (judged mod).loads = true}

/-- What the rounds make of verdicts. They end, with one verdict for each mod in whatever order
the mods stand. A mod that still loads has the verdict it had, what supports itself is never
refused, and nothing that loads lacks what it needs. -/
structure Settles (mods : List ModFacts) (needs : ModFacts → List String)
    (given judged : ModFacts → ModVerdict) : Prop where
  ends : ∀ order : List ModFacts, order.Perm mods →
    ∀ turns, mods.countP (fun mod => (given mod).loads) < turns →
      rounds (order.map needs) turns (order.map given) = some (order.map judged)
  same : ∀ mod, (judged mod).loads = true → judged mod = given mod
  holds : ∀ supported ⊆ loading mods given,
    Supported (fun mod id => (given mod).id = id) (fun mod id => id ∈ needs mod) supported →
      supported ⊆ loading mods judged
  loses : loading mods judged ⊆
    kept (fun mod id => (given mod).id = id) (fun mod id => id ∈ needs mod) (loading mods judged)

section Settling

variable {mods : List ModFacts} {needs : ModFacts → List String}
  {given judged : ModFacts → ModVerdict}

theorem loading_again : loading mods (again mods needs given) =
    kept (fun mod id => (given mod).id = id) (fun mod id => id ∈ needs mod)
      (loading mods given) := by
  ext mod
  constructor
  · rintro ⟨member, loads⟩
    obtain ⟨was, others⟩ := (loads_again mods needs given).mp loads
    refine ⟨⟨member, was⟩, fun id needed => ?_⟩
    obtain ⟨other, present, otherLoads, carries⟩ := others id needed
    exact ⟨other, ⟨present, otherLoads⟩, carries⟩
  · rintro ⟨⟨member, was⟩, others⟩
    refine ⟨member, (loads_again mods needs given).mpr ⟨was, fun id needed => ?_⟩⟩
    obtain ⟨other, ⟨present, otherLoads⟩, carries⟩ := others id needed
    exact ⟨other, present, otherLoads, carries⟩

/-- A round that refuses nothing is the last. -/
theorem settles_of_still (still : mods.any (drops mods needs given) = false) :
    Settles mods needs given given := by
  have stays (mod : ModFacts) (member : mod ∈ mods) : again mods needs given mod = given mod :=
    again_of_kept mods needs given
      ((Bool.not_eq_true _).mp (List.any_eq_false.mp still mod member))
  refine ⟨?ends, fun _ _ => rfl, fun _ within _ => within, ?loses⟩
  case ends =>
    intro order perm turns enough
    obtain ⟨before, rfl⟩ : ∃ before, turns = before + 1 := ⟨turns - 1, by omega⟩
    rw [rounds_succ mods needs given perm, still]
    exact congrArg some (map_congr_left fun mod member => stays mod (perm.mem_iff.mp member))
  case loses =>
    rw [← loading_again]
    rintro mod ⟨member, loads⟩
    exact ⟨member, by rwa [stays mod member]⟩

/-- A round that refuses a mod leaves the rest to the rounds after it. -/
theorem settles_of_again (dropped : mods.any (drops mods needs given) = true)
    (rest : Settles mods needs (again mods needs given) judged) :
    Settles mods needs given judged := by
  have ids : (fun (mod : ModFacts) (id : String) => (again mods needs given mod).id = id) =
      fun mod id => (given mod).id = id := by
    funext mod id
    rw [id_again]
  refine ⟨?ends, ?same, ?holds, ?loses⟩
  case ends =>
    intro order perm turns enough
    obtain ⟨before, rfl⟩ : ∃ before, turns = before + 1 := ⟨turns - 1, by omega⟩
    rw [rounds_succ mods needs given perm, if_pos dropped]
    have fewer := countP_again_lt mods needs given dropped
    exact rest.ends order perm before (by omega)
  case same =>
    intro mod loads
    have unchanged := rest.same mod loads
    rw [unchanged] at loads
    rw [unchanged]
    refine again_of_kept mods needs given ?_
    by_contra drop
    rw [again_of_dropped mods needs given ((Bool.not_eq_false _).mp drop)] at loads
    exact Bool.false_ne_true loads
  case holds =>
    intro supported within supports
    refine rest.holds supported ?_ (ids ▸ supports)
    rw [loading_again]
    exact supports.subset_kept within
  case loses =>
    exact ids ▸ rest.loses

/-- The rounds end, at verdicts that do not depend on the order of the mods. -/
theorem exists_settles (mods : List ModFacts) (needs : ModFacts → List String) :
    ∀ (most : Nat) (given : ModFacts → ModVerdict),
      mods.countP (fun mod => (given mod).loads) ≤ most →
      ∃ judged, Settles mods needs given judged := by
  intro most
  induction most with
  | zero =>
    intro given few
    refine ⟨given, settles_of_still ?_⟩
    by_contra dropped
    have fewer := countP_again_lt mods needs given ((Bool.not_eq_false _).mp dropped)
    omega
  | succ most ih =>
    intro given few
    cases dropped : mods.any (drops mods needs given) with
    | false => exact ⟨given, settles_of_still dropped⟩
    | true =>
      have fewer := countP_again_lt mods needs given dropped
      obtain ⟨judged, rest⟩ := ih (again mods needs given) (by omega)
      exact ⟨judged, settles_of_again dropped rest⟩

end Settling

/-! ### What a mod passes, and what it needs -/

variable (layout : Option ModLayout) (game : VersionNumbers)

theorem folder_of_infoIn {mod : ModFacts} {folder : String} {info : ModInfoFacts}
    (found : mod.infoIn folder = some info) : info.folder = folder := by
  have here : (info.folder == folder) = true :=
    @List.find?_some _ (fun info : ModInfoFacts => info.folder == folder) _ _ found
  exact beq_iff_eq.mp here

/-- The mod.info the build reads is the first that its folder holds. -/
theorem infoIn_infoRead {mod : ModFacts} {info : ModInfoFacts}
    (read : infoRead mod layout game = some info) : mod.infoIn info.folder = some info := by
  have first {folder : String} (found : mod.infoIn folder = some info) :
      mod.infoIn info.folder = some info := by rwa [folder_of_infoIn found]
  unfold infoRead at read
  split at read
  · exact first read
  · split at read
    · rcases Option.or_eq_some_iff.mp read with chosen | ⟨_, fallback⟩
      · obtain ⟨folder, _, found⟩ := Option.bind_eq_some_iff.mp chosen
        exact first found
      · exact first fallback
    · exact first read

theorem exists_of_loads {mod : ModFacts} (loads : (judgeMod mod layout game).loads = true) :
    ∃ info, infoRead mod layout game = some info ∧
      judgeMod mod layout game = .loaded info.id info.name info.folder := by
  revert loads
  fun_cases judgeMod mod layout game
  case case1 => exact fun loads => absurd loads Bool.false_ne_true
  case case2 => exact fun loads => absurd loads Bool.false_ne_true
  case case3 info read _ => exact fun _ => ⟨info, read, rfl⟩

/-- A mod that passes has a mod.info that the build reads; it goes by that mod.info's id and
needs what that mod.info names. -/
theorem judgeMod_loads {mod : ModFacts} (loads : (judgeMod mod layout game).loads = true) :
    ∃ info, infoRead mod layout game = some info ∧ (judgeMod mod layout game).id = info.id ∧
      needsOf mod (layoutFor layout game) (judgeMod mod layout game) =
        requiredIds info (layoutFor layout game) := by
  obtain ⟨info, read, passes⟩ := exists_of_loads layout game loads
  rw [passes]
  refine ⟨info, read, rfl, ?_⟩
  rw [needsOf, infoIn_infoRead layout game read]

/-- Whether a set of mods passes the build and needs nothing outside itself. -/
def Consistent (mods : List ModFacts) (chosen : Set ModFacts) : Prop :=
  ∀ mod ∈ chosen, mod ∈ mods ∧ (judgeMod mod layout game).loads = true ∧
    ∀ info, infoRead mod layout game = some info →
      ∀ id ∈ requiredIds info (layoutFor layout game), ∃ other ∈ chosen, ∃ carrier,
        infoRead other layout game = some carrier ∧ carrier.id = id

theorem consistent_iff {mods : List ModFacts} {chosen : Set ModFacts} :
    Consistent layout game mods chosen ↔
      chosen ⊆ loading mods (fun mod => judgeMod mod layout game) ∧
        Supported (fun mod id => (judgeMod mod layout game).id = id)
          (fun mod id =>
            id ∈ needsOf mod (layoutFor layout game) (judgeMod mod layout game)) chosen := by
  constructor
  · intro consistent
    refine ⟨fun mod inside => ⟨(consistent mod inside).1, (consistent mod inside).2.1⟩, ?_⟩
    intro mod inside id needed
    obtain ⟨_, loads, requires⟩ := consistent mod inside
    obtain ⟨info, read, _, needs⟩ := judgeMod_loads layout game loads
    rw [needs] at needed
    obtain ⟨other, present, carrier, carries, named⟩ := requires info read id needed
    obtain ⟨its, itsRead, itsId, _⟩ := judgeMod_loads layout game (consistent other present).2.1
    obtain rfl := Option.some.inj (itsRead.symm.trans carries)
    exact ⟨other, present, itsId.trans named⟩
  · rintro ⟨within, supports⟩ mod inside
    refine ⟨(within inside).1, (within inside).2, fun info read id required => ?_⟩
    obtain ⟨its, itsRead, _, needs⟩ := judgeMod_loads layout game (within inside).2
    obtain rfl := Option.some.inj (itsRead.symm.trans read)
    rw [← needs] at required
    obtain ⟨other, present, carries⟩ := supports mod inside id required
    obtain ⟨carrier, carrierRead, carrierId, _⟩ := judgeMod_loads layout game (within present).2
    exact ⟨other, present, carrier, carrierRead, carrierId.symm.trans carries⟩

/-! ### The greatest consistent set -/

/-- The mods that a server is judged to load are the greatest set of mods that pass the build
and need nothing outside the set. The rounds are over within one more than there are mods, and
each mod has one verdict in whatever order the mods stand. -/
theorem judgeServer_greatest (mods : List ModFacts) :
    ∃ judged : ModFacts → ModVerdict,
      (∀ order : List ModFacts, order.Perm mods → ∀ turns, mods.length < turns →
        judgeServer turns order layout game = some (order.map judged)) ∧
      IsGreatest {chosen | Consistent layout game mods chosen}
        {mod | mod ∈ mods ∧ (judged mod).loads = true} := by
  obtain ⟨judged, settles⟩ := exists_settles mods
    (fun mod => needsOf mod (layoutFor layout game) (judgeMod mod layout game)) _
    (fun mod => judgeMod mod layout game) (le_refl _)
  refine ⟨judged, ?_, ?_⟩
  · intro order perm turns enough
    have few := mods.countP_le_length (p := fun mod => (judgeMod mod layout game).loads)
    rw [judgeServer, ← settles.ends order perm turns (by omega), zipWith_map_right,
      zipWith_self]
  · have among : loading mods judged ⊆ loading mods fun mod => judgeMod mod layout game := by
      rintro mod ⟨member, loads⟩
      exact ⟨member, (congrArg ModVerdict.loads (settles.same mod loads)).symm.trans loads⟩
    have same : {chosen | Consistent layout game mods chosen} = _ :=
      Set.ext fun _ => consistent_iff layout game
    rw [same]
    exact Systems.isGreatest_of_kept among settles.holds settles.loses

end Geeboard.Games.ModBuilds
