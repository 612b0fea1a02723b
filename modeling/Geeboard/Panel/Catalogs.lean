/-
This file is about a game's catalog: the versions its providers offered, and what
the panel makes of them.

A catalog is summed up the same way twice, once from what the providers just
answered and once from the rows that were kept of it, and the two come in orders
of their own. The versions are ranked by their version strings where both have
one, else by their dates where both have one, else by their ids. Each of the three
orders the versions it is asked about, but they are not asked about the same ones,
and a version with only a string, one with only a date and one with both may each
be ranked before the next. The summary is the same for every order the versions
came in exactly when no three of them go round like that and no two are level.
-/

import Geeboard.Panel.Versions
import Geeboard.Systems.Comparisons

namespace Geeboard.Catalogs

open Panel Systems List

/-! ### Versions and how they are ranked -/

inductive VersionChannel where
  | stable | legacy | snapshot | preview
  deriving DecidableEq, Repr

/-- One version somebody offered. -/
structure VersionCandidate where
  id : String
  label : String
  upstream : Option String := none
  released : Option String := none
  channel : VersionChannel := .stable
  recommended : Bool := false
  supported : Bool := true
  line : Option String := none
  deriving DecidableEq, Repr

/-- The language's comparison of texts for readers, which is a total order of some kind. -/
structure Collation where
  localeCompare : String → String → Int
  swap : ∀ first second, localeCompare second first < 0 ↔ 0 < localeCompare first second
  trans : ∀ first second third, localeCompare first second ≤ 0 →
    localeCompare second third ≤ 0 → localeCompare first third ≤ 0

/-- A text that is there; an empty one is as none. -/
def said (text : Option String) : Option String := text.filter fun text => text != ""

/-- By the version strings, newest first, when both have one. -/
def byVersion (first second : VersionCandidate) : Int :=
  match said first.upstream, said second.upstream with
  | some left, some right => compareVersions right left
  | _, _ => 0

/-- By the dates, newest first, when both have one. -/
def byRelease (first second : VersionCandidate) : Int :=
  match said first.released, said second.released with
  | some left, some right => compareUnits (utf16Units right.toList) (utf16Units left.toList)
  | _, _ => 0

def byId (locale : Collation) (first second : VersionCandidate) : Int :=
  locale.localeCompare first.id second.id

/-- Newest first, and a stable order for versions nobody can date. -/
def rank (locale : Collation) : VersionCandidate → VersionCandidate → Int :=
  thenBy byVersion (thenBy byRelease (byId locale))

def CHANNEL_RANK : VersionChannel → Int
  | .stable => 3
  | .legacy => 2
  | .snapshot => 1
  | .preview => 0

def byChannel (first second : VersionCandidate) : Int :=
  CHANNEL_RANK second.channel - CHANNEL_RANK first.channel

/-- The newest of some installable versions, a stabler channel before a newer version. -/
def newestInstallable (sort : ArraySort VersionCandidate) (locale : Collation)
    (candidates : List VersionCandidate) : Option VersionCandidate :=
  (sort.sort (thenBy byChannel (rank locale)) candidates).head?

/-- The newer of two version strings, either of which may be missing. -/
def newerOf (first second : Option String) : Option String :=
  match said first, said second with
  | none, _ => second
  | some _, none => first
  | some left, some right => if 0 ≤ compareVersions left right then first else second

/-! ### The summary -/

/-- What the providers said besides their versions. -/
structure Extras where
  gameLatest : Option String := none
  serverLatest : Option String := none
  providerErrors : List (String × String) := []
  deriving DecidableEq, Repr

structure VersionCatalog where
  gameId : GameId
  candidates : List VersionCandidate
  gameLatest : Option String
  serverLatest : Option String
  supportedLatest : Option VersionCandidate
  recommended : Option VersionCandidate
  providerErrors : List (String × String)
  deriving DecidableEq, Repr

/-- The newest server build, after one more version was looked at. -/
def serverLatestAfter (latest : Option String) (candidate : VersionCandidate) : Option String :=
  match said candidate.upstream with
  | some _ => newerOf latest candidate.upstream
  | none => latest

def summariseCatalog (sort : ArraySort VersionCandidate) (locale : Collation) (gameId : GameId)
    (input : List VersionCandidate) (extras : Extras) : VersionCatalog :=
  let candidates := sort.sort (rank locale) input
  let installable := candidates.filter fun candidate => candidate.supported
  let supportedLatest := newestInstallable sort locale installable
  let serverLatest := candidates.foldl serverLatestAfter extras.serverLatest
  { gameId
    candidates
    gameLatest := newerOf extras.gameLatest serverLatest
    serverLatest
    supportedLatest
    recommended := (installable.find? fun candidate => candidate.recommended) <|> supportedLatest
    providerErrors := extras.providerErrors }

/-! ### Each way of ranking turns its sign -/

theorem byVersion_swap (first second : VersionCandidate) :
    byVersion second first = -byVersion first second := by
  unfold byVersion
  rcases said first.upstream with _ | left
  · cases said second.upstream with
    | _ => rfl
  · rcases said second.upstream with _ | right
    · rfl
    · exact compareSegments_swap _ _

theorem byRelease_swap (first second : VersionCandidate) :
    byRelease second first = -byRelease first second := by
  unfold byRelease
  rcases said first.released with _ | left
  · cases said second.released with
    | _ => rfl
  · rcases said second.released with _ | right
    · rfl
    · exact compareUnits_swap _ _

theorem rank_swap (locale : Collation) (first second : VersionCandidate) :
    rank locale second first < 0 ↔ 0 < rank locale first second := by
  have version := byVersion_swap first second
  have release := byRelease_swap first second
  have id := locale.swap first.id second.id
  unfold rank thenBy byId
  split <;> split <;> (try split) <;> (try split) <;> omega

theorem rank_self (locale : Collation) (candidate : VersionCandidate) :
    rank locale candidate candidate = 0 := by
  have turned := rank_swap locale candidate candidate
  omega

/-! ### When the order the versions came in is not seen -/

/-- No three of the versions go round, and no two are level. -/
structure RankedAlike (locale : Collation) (input : List VersionCandidate) : Prop where
  trans : ∀ first ∈ input, ∀ second ∈ input, ∀ third ∈ input,
    rank locale first second ≤ 0 → rank locale second third ≤ 0 → rank locale first third ≤ 0
  apart : Apart (rank locale) input

variable {input : List VersionCandidate}

theorem RankedAlike.orders {locale : Collation} (alike : RankedAlike locale input) :
    Orders (rank locale) input where
  swap first _ second _ := rank_swap locale first second
  trans := alike.trans

/-- The version strings order versions that all have one of whole numbers, or that all have
none. -/
theorem byVersion_orders
    (strings : (∀ candidate ∈ input, ∃ text, said candidate.upstream = some text ∧ Whole text) ∨
      ∀ candidate ∈ input, said candidate.upstream = none) : Orders byVersion input := by
  refine ⟨fun first _ second _ => by rw [byVersion_swap]; omega, ?_⟩
  intro first firstIn second secondIn third thirdIn near far
  unfold byVersion at near far ⊢
  rcases strings with whole | none_
  · obtain ⟨one, isOne, oneWhole⟩ := whole first firstIn
    obtain ⟨two, isTwo, twoWhole⟩ := whole second secondIn
    obtain ⟨three, isThree, threeWhole⟩ := whole third thirdIn
    simp only [isOne, isTwo, isThree] at near far ⊢
    rw [compareVersions_whole twoWhole oneWhole] at near
    rw [compareVersions_whole threeWhole twoWhole] at far
    rw [compareVersions_whole threeWhole oneWhole]
    exact compareUnits_trans far near
  · simp only [none_ first firstIn]
    exact le_refl 0

/-- The dates order versions that all have one, or that all have none. -/
theorem byRelease_orders (dates : (∀ candidate ∈ input, said candidate.released ≠ none) ∨
      ∀ candidate ∈ input, said candidate.released = none) : Orders byRelease input := by
  refine ⟨fun first _ second _ => by rw [byRelease_swap]; omega, ?_⟩
  intro first firstIn second secondIn third thirdIn near far
  unfold byRelease at near far ⊢
  rcases dates with all | none_
  · obtain ⟨one, isOne⟩ := Option.ne_none_iff_exists'.mp (all first firstIn)
    obtain ⟨two, isTwo⟩ := Option.ne_none_iff_exists'.mp (all second secondIn)
    obtain ⟨three, isThree⟩ := Option.ne_none_iff_exists'.mp (all third thirdIn)
    simp only [isOne, isTwo, isThree] at near far ⊢
    exact compareUnits_trans far near
  · simp only [none_ first firstIn]
    exact le_refl 0

/-- Versions go round nowhere that all have a string of whole numbers or all have none, that all
have a date or all have none, and whose ids are told apart. -/
theorem rankedAlike_of_even {locale : Collation}
    (strings : (∀ candidate ∈ input, ∃ text, said candidate.upstream = some text ∧ Whole text) ∨
      ∀ candidate ∈ input, said candidate.upstream = none)
    (dates : (∀ candidate ∈ input, said candidate.released ≠ none) ∨
      ∀ candidate ∈ input, said candidate.released = none) (ids : Apart (byId locale) input) :
    RankedAlike locale input := by
  have named : Orders (byId locale) input :=
    ⟨fun first _ second _ => locale.swap first.id second.id,
      fun first _ second _ third _ => locale.trans first.id second.id third.id⟩
  refine ⟨((byVersion_orders strings).thenBy ((byRelease_orders dates).thenBy named)).trans, ?_⟩
  intro first firstIn second secondIn level
  unfold rank thenBy at level
  split at level
  · split at level
    · exact ids first firstIn second secondIn level
    case isFalse dated => exact absurd level dated
  case isFalse versioned => exact absurd level versioned

/-- Two members of a list without repetitions stand in it one way round. -/
theorem eq_of_both_sublist {members : List VersionCandidate} (distinct : members.Nodup)
    {first second : VersionCandidate} (near : [first, second].Sublist members)
    (far : [second, first].Sublist members) : first = second := by
  induction members with
  | nil => cases near
  | cons member members inductionHypothesis =>
    obtain ⟨fresh, distinct⟩ := nodup_cons.mp distinct
    obtain nearer | ⟨_, same, -⟩ := sublist_cons_iff.mp near
    · obtain farther | ⟨_, same, -⟩ := sublist_cons_iff.mp far
      · exact inductionHypothesis distinct nearer farther
      · cases same
        exact absurd (nearer.subset (mem_cons_of_mem _ mem_cons_self)) fresh
    · cases same
      obtain farther | ⟨_, same, -⟩ := sublist_cons_iff.mp far
      · exact absurd (farther.subset (mem_cons_of_mem _ mem_cons_self)) fresh
      · cases same
        rfl

/-- A sort that leaves versions alone which the ranking does not order shows how they came. -/
theorem trans_of_alike {locale : Collation} (distinct : input.Nodup)
    (alike : ∀ other, other.Perm input →
      ArraySort.idle.sort (rank locale) other = ArraySort.idle.sort (rank locale) input) :
    Orders (rank locale) input := by
  by_contra unordered
  have left (other : List VersionCandidate) (same : other.Perm input) :
      ArraySort.idle.sort (rank locale) other = other :=
    if_neg fun orders => unordered (orders.mono same.symm.subset)
  rcases input with _ | ⟨first, _ | ⟨second, rest⟩⟩
  · exact unordered ⟨by simp, by simp⟩
  · refine unordered ⟨fun first _ second _ => rank_swap locale first second, ?_⟩
    intro left leftIn middle middleIn right rightIn _ _
    rw [mem_singleton.mp leftIn, mem_singleton.mp rightIn, rank_self]
  · have swapped := alike (second :: first :: rest) (List.Perm.swap first second rest)
    rw [left _ (List.Perm.swap first second rest), left _ (List.Perm.refl _)] at swapped
    obtain ⟨same, -⟩ := cons.inj swapped
    exact (nodup_cons.mp distinct).1 (same ▸ mem_cons_self)

/-- A sort that keeps level versions as they came shows how those came. -/
theorem apart_of_alike {locale : Collation} (distinct : input.Nodup)
    (alike : ∀ other, other.Perm input →
      ArraySort.insertion.sort (rank locale) other =
        ArraySort.insertion.sort (rank locale) input) :
    Apart (rank locale) input := by
  intro first firstIn second secondIn level
  by_contra different
  have back : rank locale second first ≤ 0 := by
    have turned := rank_swap locale second first
    omega
  obtain ⟨rest, split⟩ : ∃ rest, (first :: second :: rest).Perm input := by
    have secondIn := (mem_erase_of_ne (Ne.symm different)).mpr secondIn
    exact ⟨(input.erase first).erase second,
      (((perm_cons_erase firstIn).trans
        ((perm_cons_erase secondIn).cons first))).symm⟩
  have pair (left right : VersionCandidate) (rest : List VersionCandidate) :
      [left, right].Sublist (left :: right :: rest) :=
    ((nil_sublist rest).cons_cons right).cons_cons left
  have kept (left right : VersionCandidate) (before : rank locale left right ≤ 0) :
      [left, right].Sublist
        (ArraySort.insertion.sort (rank locale) (left :: right :: rest)) :=
    pair_sublist_insertionSort before (pair left right rest)
  have turned : (second :: first :: rest).Perm input := (List.Perm.swap first second rest).trans split
  refine different (eq_of_both_sublist
    ((ArraySort.insertion.perm (rank locale) input).nodup_iff.mpr distinct) ?_ ?_)
  · rw [← alike _ split]
    exact kept first second (le_of_eq level)
  · rw [← alike _ turned]
    exact kept second first back

/-- For versions with ids of their own, whatever correct sort is used, the summary does not
depend on the order the versions came in exactly when the ranking is transitive among them and
tells any two of them apart. -/
theorem summariseCatalog_alike_iff (locale : Collation) (gameId : GameId) (extras : Extras)
    (input : List VersionCandidate)
    (distinct : (input.map fun candidate => candidate.id).Nodup) :
    (∀ sort : ArraySort VersionCandidate, ∀ other : List VersionCandidate, other.Perm input →
      summariseCatalog sort locale gameId other extras =
        summariseCatalog sort locale gameId input extras) ↔
    RankedAlike locale input := by
  constructor
  · intro alike
    have sorted (sort : ArraySort VersionCandidate) (other : List VersionCandidate)
        (same : other.Perm input) :
        sort.sort (rank locale) other = sort.sort (rank locale) input :=
      congrArg VersionCatalog.candidates (alike sort other same)
    have distinct := distinct.of_map
    exact ⟨(trans_of_alike distinct (sorted ArraySort.idle)).trans,
      apart_of_alike distinct (sorted ArraySort.insertion)⟩
  · intro alike sort other same
    unfold summariseCatalog
    rw [sort.sort_eq_of_perm alike.orders alike.apart same]

/-- Texts compared unit by unit, as plain lower-case ids are. -/
def Collation.units : Collation where
  localeCompare first second := compareUnits (utf16Units first.toList) (utf16Units second.toList)
  swap first second := by
    rw [compareUnits_swap (utf16Units first.toList)]
    omega
  trans _ _ _ := compareUnits_trans

/-- A version with a string, one with a date, and one with both. -/
def goingRound : List VersionCandidate :=
  [{ id := "b", label := "B", upstream := some "2" },
    { id := "c", label := "C", upstream := some "1", released := some "2024-07-01" },
    { id := "a", label := "A", released := some "2024-06-01" }]

/-- The same three versions, summed up from another order, give another version to install. -/
theorem summariseCatalog_unlike :
    ¬ ∀ (sort : ArraySort VersionCandidate) (locale : Collation) (gameId : GameId)
      (extras : Extras) (input : List VersionCandidate),
      (input.map fun candidate => candidate.id).Nodup → ∀ other, other.Perm input →
      summariseCatalog sort locale gameId other extras =
        summariseCatalog sort locale gameId input extras := by
  intro alike
  have turned : (goingRound.rotate 1).Perm goingRound := rotate_perm _ _
  have same := alike ArraySort.insertion Collation.units "game" {} goingRound (by decide +kernel)
    (goingRound.rotate 1) turned
  exact absurd (congrArg VersionCatalog.recommended same) (by decide +kernel)

/-- Versions with dotted numbers. -/
def dotted : List VersionCandidate :=
  [{ id := "old", label := "Old", upstream := some "1.9" },
    { id := "new", label := "New", upstream := some "1.10" },
    { id := "newest", label := "Newest", upstream := some "1.10.2" }]

/-- Versions with dotted numbers are summed up alike from back to front and turned round. -/
theorem summariseCatalog_alike_dotted :
    summariseCatalog ArraySort.insertion Collation.units "game" dotted.reverse {} =
        summariseCatalog ArraySort.insertion Collation.units "game" dotted {} ∧
      summariseCatalog ArraySort.insertion Collation.units "game" (dotted.rotate 1) {} =
        summariseCatalog ArraySort.insertion Collation.units "game" dotted {} := by
  have numbers : ∀ candidate ∈ dotted,
      ∃ text, said candidate.upstream = some text ∧ Whole text := by
    simp only [dotted, forall_mem_cons]
    exact ⟨⟨"1.9", rfl, by decide⟩, ⟨"1.10", rfl, by decide⟩, ⟨"1.10.2", rfl, by decide⟩,
      fun _ none_ => absurd none_ not_mem_nil⟩
  have ids : Apart (byId Collation.units) dotted := by
    unfold Apart
    decide +kernel
  have alike := (summariseCatalog_alike_iff Collation.units "game" {} dotted
    (by decide +kernel)).mpr (rankedAlike_of_even (.inl numbers) (.inr (by decide)) ids)
  exact ⟨alike _ _ (reverse_perm _), alike _ _ (rotate_perm _ _)⟩

end Geeboard.Catalogs
