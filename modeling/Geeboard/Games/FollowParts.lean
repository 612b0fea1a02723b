/-
This file is about the parts of following tags, one at a time.

The audit says nothing exactly when ids, former ids and rules are each there once and
every rule has a template and a pattern. The tags add to a line one version for each
newer version string, with an image in the repository and one of them recommended at
most. Of a list that is handed in, each acceptable version has its id accepted once.
-/

import Geeboard.Games.Followed

namespace Geeboard.Games.Follow

open List Option
open Panel (compareVersions)
open Systems
open Text (Record)

variable {engine : Engine} {game : GameDefinition} {follow : TagFollow}

/-! ### What the audit asks -/

theorem auditIds_eq_nil {seen : List String} {versions : List GameVersion} :
    auditIds game seen versions = [] ↔
      (versions.map (·.id)).Nodup ∧ ∀ version ∈ versions, version.id ∉ seen := by
  induction versions generalizing seen with
  | nil => exact ⟨fun _ => ⟨nodup_nil, fun _ => fun none => by cases none⟩, fun _ => rfl⟩
  | cons version versions inductionHypothesis =>
    unfold auditIds
    rw [append_eq_nil_iff, inductionHypothesis, map_cons, nodup_cons,
      forall_mem_cons]
    simp only [contains_iff_mem, mem_cons, not_or, ite_eq_right_iff,
      cons_ne_nil, imp_false, List.mem_map, not_exists, not_and]
    constructor
    · rintro ⟨new, apart, others⟩
      exact ⟨⟨fun other otherIn => (others other otherIn).1, apart⟩, new,
        fun other otherIn => (others other otherIn).2⟩
    · rintro ⟨⟨new, apart⟩, fresh, others⟩
      exact ⟨fresh, apart, fun other otherIn => ⟨new other otherIn, others other otherIn⟩⟩

theorem auditFormerIds_eq_nil {seen ids : List String} :
    auditFormerIds game seen ids = [] ↔
      ids.Nodup ∧ ∀ id ∈ ids, id ∉ seen ∧ id ∉ game.versions.map (·.id) := by
  induction ids generalizing seen with
  | nil => exact ⟨fun _ => ⟨nodup_nil, fun _ => fun none => by cases none⟩, fun _ => rfl⟩
  | cons id ids inductionHypothesis =>
    unfold auditFormerIds
    rw [append_eq_nil_iff, append_eq_nil_iff, inductionHypothesis, nodup_cons,
      forall_mem_cons]
    simp only [contains_iff_mem, mem_cons, not_or, ite_eq_right_iff,
      cons_ne_nil, imp_false, List.any_eq_true, beq_iff_eq, List.mem_map]
    constructor
    · rintro ⟨⟨notStill, new⟩, apart, others⟩
      exact ⟨⟨fun idIn => (others id idIn).1.1 rfl, apart⟩, ⟨new, notStill⟩,
        fun other otherIn => ⟨(others other otherIn).1.2, (others other otherIn).2⟩⟩
    · rintro ⟨⟨new, apart⟩, ⟨fresh, notStill⟩, others⟩
      exact ⟨⟨notStill, fresh⟩, apart, fun other otherIn =>
        ⟨⟨fun same => new (same ▸ otherIn), (others other otherIn).1⟩, (others other otherIn).2⟩⟩

/-- A rule of which the audit has nothing to say. -/
structure RuleFits (engine : Engine) (game : GameDefinition) (follow : TagFollow)
    (rule : TagFollowLine) : Prop where
  template : ∃ template, templateOf engine game.versions rule.line = some template ∧
    repositoryOf template.image = follow.repository
  pattern : (tagPattern engine rule).isSome = true
  group : (rule.tag.toList.tails.any fun tail => "(?<version>".toList.isPrefixOf tail) = true

theorem lineProblems_eq_nil {rule : TagFollowLine} :
    lineProblems engine game follow rule = [] ↔ RuleFits engine game follow rule := by
  unfold lineProblems
  rw [append_eq_nil_iff]
  constructor
  · rintro ⟨template, pattern⟩
    split at pattern
    · cases pattern
    case isFalse isPattern =>
    split at pattern
    · cases pattern
    case isFalse hasGroup =>
    refine ⟨?_, ?_, by simpa only [Bool.not_eq_true, Bool.not_eq_false'] using hasGroup⟩
    · split at template
      · cases template
      case h_2 found =>
        split at template
        · cases template
        case isFalse same => exact ⟨_, found, not_not.mp same⟩
    · rw [isNone_iff_eq_none] at isPattern
      exact isSome_iff_ne_none.mpr isPattern
  · rintro ⟨⟨template, found, same⟩, pattern, hasGroup⟩
    rw [found, hasGroup]
    refine ⟨?_, ?_⟩
    · dsimp only
      rw [if_neg (not_not.mpr same)]
    · rw [if_neg (by rw [isNone_iff_eq_none]; exact isSome_iff_ne_none.mp pattern)]
      rfl

theorem ruleProblems_eq_nil {seen : List String} {rules : List TagFollowLine} :
    ruleProblems engine game follow seen rules = [] ↔
      (rules.map (·.line)).Nodup ∧
        ∀ rule ∈ rules, rule.line ∉ seen ∧ RuleFits engine game follow rule := by
  induction rules generalizing seen with
  | nil => exact ⟨fun _ => ⟨nodup_nil, fun _ => fun none => by cases none⟩, fun _ => rfl⟩
  | cons rule rules inductionHypothesis =>
    unfold ruleProblems
    rw [append_eq_nil_iff, append_eq_nil_iff, inductionHypothesis, lineProblems_eq_nil,
      map_cons, nodup_cons, forall_mem_cons]
    simp only [contains_iff_mem, mem_cons, not_or, ite_eq_right_iff,
      cons_ne_nil, imp_false, List.mem_map, not_exists, not_and]
    constructor
    · rintro ⟨⟨new, fits⟩, apart, others⟩
      exact ⟨⟨fun other otherIn => (others other otherIn).1.1, apart⟩, ⟨new, fits⟩,
        fun other otherIn => ⟨(others other otherIn).1.2, (others other otherIn).2⟩⟩
    · rintro ⟨⟨new, apart⟩, ⟨fresh, fits⟩, others⟩
      exact ⟨⟨fresh, fits⟩, apart, fun other otherIn =>
        ⟨⟨new other otherIn, (others other otherIn).1⟩, (others other otherIn).2⟩⟩

/-- A definition with a follow rule of which the audit has nothing to say. -/
structure Consistent (engine : Engine) (game : GameDefinition) (follow : TagFollow) : Prop where
  ids : (game.versions.map (·.id)).Nodup
  formerIds : (game.versions.flatMap GameVersion.formerIds).Nodup
  apart : ∀ id ∈ game.versions.flatMap GameVersion.formerIds, id ∉ game.versions.map (·.id)
  some_ : game.versions ≠ []
  repository : isRepository follow.repository = true
  lines : follow.lines ≠ []
  once : (follow.lines.map (·.line)).Nodup
  rules : ∀ rule ∈ follow.lines, RuleFits engine game follow rule
  settings : Games.auditDefinition engine.language game.whole = []

theorem auditDefinition_eq_nil (follows : game.followTags = some follow) :
    auditDefinition engine game = [] ↔ Consistent engine game follow := by
  unfold auditDefinition followProblems
  rw [follows]
  simp only [append_eq_nil_iff, auditIds_eq_nil, auditFormerIds_eq_nil, ruleProblems_eq_nil,
    not_mem_nil, not_false_eq_true, implies_true, and_true, true_and, ite_eq_right_iff,
    cons_ne_nil, imp_false, List.isEmpty_iff, Bool.not_eq_true', Bool.not_eq_false]
  constructor
  · rintro ⟨⟨⟨⟨ids, formerIds, apart⟩, some_⟩, ⟨repository, lines⟩, once, rules⟩, settings⟩
    exact ⟨ids, formerIds, apart, some_, repository, lines, once, rules, settings⟩
  · rintro ⟨ids, formerIds, apart, some_, repository, lines, once, rules, settings⟩
    exact ⟨⟨⟨⟨ids, formerIds, apart⟩, some_⟩, ⟨repository, lines⟩, once, rules⟩, settings⟩

/-! ### The rules about settings read the lines of the versions only -/

theorem auditKeys_of_lines {game : Games.GameDefinition} {versions : List Games.GameVersion}
    (among : ∀ version ∈ versions, ∃ other ∈ game.versions,
      other.line.getD "" = version.line.getD "")
    (passes : auditKeys game = []) : auditKeys { game with versions := versions } = [] := by
  unfold auditKeys at passes ⊢
  rw [flatMap_eq_nil_iff] at passes ⊢
  intro key keyIn
  have passesKey := passes key keyIn
  dsimp only at passesKey ⊢
  split at passesKey
  case isTrue few => rw [if_pos few]
  case isFalse several =>
  rw [if_neg several, map_eq_nil_iff, filter_eq_nil_iff]
  rw [map_eq_nil_iff, filter_eq_nil_iff] at passesKey
  intro line lineIn
  obtain ⟨version, versionIn, rfl⟩ := List.mem_map.mp (mem_eraseDups.mp lineIn)
  obtain ⟨other, otherIn, same⟩ := among version versionIn
  rw [← same]
  exact passesKey _ (mem_eraseDups.mpr
    (List.mem_map_of_mem (f := fun version : Games.GameVersion => version.line.getD "") otherIn))

theorem auditLines_of_lines {game : Games.GameDefinition} {versions : List Games.GameVersion}
    (among : ∀ version ∈ game.versions, ∃ other ∈ versions,
      other.line.getD "" = version.line.getD "")
    {field : ConfigField} (passes : auditLines game field = []) :
    auditLines { game with versions := versions } field = [] := by
  unfold auditLines at passes ⊢
  rw [map_eq_nil_iff, filter_eq_nil_iff] at passes ⊢
  intro line lineIn
  have known := passes line lineIn
  simp only [Bool.not_eq_true', Bool.not_eq_false, contains_iff_mem, List.mem_map] at known ⊢
  obtain ⟨version, versionIn, rfl⟩ := known
  exact among version versionIn

/-- A definition whose versions are on the same lines is as consistent in its settings. -/
theorem auditDefinition_of_lines {language : Language} {game : Games.GameDefinition}
    {versions : List Games.GameVersion}
    (fewer : ∀ version ∈ versions, ∃ other ∈ game.versions,
      other.line.getD "" = version.line.getD "")
    (more : ∀ version ∈ game.versions, ∃ other ∈ versions,
      other.line.getD "" = version.line.getD "")
    (passes : Games.auditDefinition language game = []) :
    Games.auditDefinition language { game with versions := versions } = [] := by
  unfold Games.auditDefinition at passes ⊢
  simp only [append_eq_nil_iff, flatMap_eq_nil_iff] at passes ⊢
  obtain ⟨⟨⟨⟨⟨⟨keys, fields⟩, json⟩, install⟩, joined⟩, references⟩, shown⟩ := passes
  exact ⟨⟨⟨⟨⟨⟨auditKeys_of_lines fewer keys, fun field fieldIn =>
    ⟨⟨auditLines_of_lines more (fields field fieldIn).1.1, (fields field fieldIn).1.2⟩,
      (fields field fieldIn).2⟩⟩, json⟩, install⟩, joined⟩, references⟩, shown⟩

/-! ### From tags to versions -/

section Tags

variable {pattern : String → Option TagGroups} {template : GameVersion} {tags : List TagRecord}
  {best : Record String Release} {rule : TagFollowLine}

theorem withTag_keeps {tag : TagRecord} {key : String} (has : (best.get key).isSome) :
    ((withTag pattern template best tag).get key).isSome := by
  have kept (release : Release) : ((best.set release.version release).get key).isSome := by
    rw [Record.get_set]
    split
    · rfl
    · exact has
  unfold withTag
  split
  · exact has
  split
  · exact has
  split
  · exact kept _
  split
  · exact kept _
  · exact has

theorem withTag_has {tag : TagRecord} {release : Release}
    (isRelease : readTag pattern tag = some release) (newer : isNewer template release = true) :
    ((withTag pattern template best tag).get release.version).isSome := by
  unfold withTag
  rw [isRelease]
  dsimp only
  rw [newer, if_neg (by decide)]
  split
  · rw [Record.get_set_self]
    rfl
  case h_2 found =>
    split
    · rw [Record.get_set_self]
      rfl
    · rw [found]
      rfl

/-- Every version of a newer release has a best build. -/
theorem bestReleases_has {tag : TagRecord} (tagIn : tag ∈ tags) {release : Release}
    (isRelease : readTag pattern tag = some release) (newer : isNewer template release = true) :
    ((bestReleases pattern template tags).get release.version).isSome := by
  have kept (more : List TagRecord) (best : Record String Release)
      (has : (best.get release.version).isSome) :
      ((more.foldl (withTag pattern template) best).get release.version).isSome := by
    induction more generalizing best with
    | nil => exact has
    | cons other more inductionHypothesis => exact inductionHypothesis _ (withTag_keeps has)
  obtain ⟨before, after, rfl⟩ := append_of_mem tagIn
  unfold bestReleases
  rw [foldl_append, foldl_cons]
  exact kept after _ (withTag_has isRelease newer)

/-- What a build in the table is. -/
def IsBuild (pattern : String → Option TagGroups) (template : GameVersion) (tags : List TagRecord)
    (version : String) (release : Release) : Prop :=
  release.version = version ∧ isNewer template release = true ∧
    ∃ tag ∈ tags, readTag pattern tag = some release

theorem bestReleases_isBuild {version : String} {release : Release}
    (found : (bestReleases pattern template tags).get version = some release) :
    IsBuild pattern template tags version release := by
  have kept (more : List TagRecord) (among : more ⊆ tags) (best : Record String Release)
      (builds : ∀ version release, best.get version = some release →
        IsBuild pattern template tags version release)
      (found : (more.foldl (withTag pattern template) best).get version = some release) :
      IsBuild pattern template tags version release := by
    induction more generalizing best with
    | nil => exact builds version release found
    | cons tag more inductionHypothesis =>
      obtain ⟨tagIn, among⟩ := cons_subset.mp among
      refine inductionHypothesis among _ (fun version other isOther => ?_) found
      have set_ {release : Release} (isRelease : readTag pattern tag = some release)
          (newer : isNewer template release = true)
          (isOther : (best.set release.version release).get version = some other) :
          IsBuild pattern template tags version other := by
        rw [Record.get_set] at isOther
        split at isOther
        case isTrue same =>
          obtain rfl := some.inj isOther
          exact ⟨same, newer, tag, tagIn, isRelease⟩
        case isFalse => exact builds version other isOther
      unfold withTag at isOther
      split at isOther
      · exact builds version other isOther
      case h_2 release isRelease =>
      split at isOther
      · exact builds version other isOther
      case isFalse newer =>
      have newer : isNewer template release = true := by
        simpa only [Bool.not_eq_true', Bool.not_eq_false] using newer
      split at isOther
      · exact set_ isRelease newer isOther
      split at isOther
      · exact set_ isRelease newer isOther
      · exact builds version other isOther
  exact kept tags (Subset.refl tags) .empty (fun _ _ none => by cases none) found

/-- The tag of a release is the name of a tag the registry lists. -/
theorem tag_of_readTag {tag : TagRecord} {release : Release}
    (isRelease : readTag pattern tag = some release) : release.tag = tag.name := by
  unfold readTag at isRelease
  obtain ⟨groups, -, isRelease⟩ := bind_eq_some_iff.mp isRelease
  obtain ⟨version, -, isRelease⟩ := bind_eq_some_iff.mp isRelease
  obtain ⟨rebuild, -, isRelease⟩ := bind_eq_some_iff.mp isRelease
  rw [← some.inj isRelease]

/-- The releases of a line in the order they become versions in. -/
theorem mem_releases {release : Release} :
    release ∈ engine.releases.sort
        (fun first second => compareVersions second.version first.version)
        ((bestReleases pattern template tags).entries.map Prod.snd) ↔
      ∃ version, (bestReleases pattern template tags).get version = some release := by
  rw [ArraySort.mem_sort, List.mem_map]
  constructor
  · rintro ⟨entry, entryIn, rfl⟩
    exact ⟨entry.1, Record.get_of_mem entryIn⟩
  · rintro ⟨version, found⟩
    exact ⟨(version, release), Record.mem_of_get found, rfl⟩

/-- What a version that the tags add to a line is. -/
structure Follows (engine : Engine) (game : GameDefinition) (follow : TagFollow)
    (tags : List TagRecord) (rule : TagFollowLine) (version : GameVersion) : Prop where
  made : ∃ template pattern release index tag,
    templateOf engine game.versions rule.line = some template ∧
    tagPattern engine rule = some pattern ∧ tag ∈ tags ∧ readTag pattern tag = some release ∧
    isNewer template release = true ∧ version = followedVersion follow template release index
  free : version.id ∉ shippedIds game

theorem follows_of_mem {version : GameVersion}
    (versionIn : version ∈ followedOnLine engine game follow tags rule) :
    Follows engine game follow tags rule version := by
  unfold followedOnLine at versionIn
  split at versionIn
  case h_2 => cases versionIn
  case h_1 template pattern isTemplate isPattern =>
  split at versionIn
  · cases versionIn
  obtain ⟨⟨release, index⟩, indexedIn, isVersion⟩ := mem_filterMap.mp versionIn
  split at isVersion
  · cases isVersion
  case isFalse free =>
  obtain rfl := some.inj isVersion
  obtain ⟨version, found⟩ := mem_releases.mp (fst_mem_of_mem_zipIdx indexedIn)
  obtain ⟨-, newer, tag, tagIn, isRelease⟩ := bestReleases_isBuild found
  exact ⟨⟨template, pattern, release, index, tag, isTemplate, isPattern, tagIn, isRelease, newer,
    rfl⟩, fun shipped => free (contains_iff_mem.mpr shipped)⟩

/-- Each newer release has its id among those the tags add, or among the shipped ones. -/
theorem id_of_release (fits : RuleFits engine game follow rule)
    (isTemplate : templateOf engine game.versions rule.line = some template)
    (isPattern : tagPattern engine rule = some pattern) {tag : TagRecord} (tagIn : tag ∈ tags)
    {release : Release} (isRelease : readTag pattern tag = some release)
    (newer : isNewer template release = true)
    (free : followedId template release.version ∉ shippedIds game) :
    followedId template release.version ∈
      (followedOnLine engine game follow tags rule).map (·.id) := by
  obtain ⟨other, isOther, same⟩ := fits.template
  rw [isTemplate] at isOther
  obtain rfl := some.inj isOther
  obtain ⟨build, found⟩ := isSome_iff_exists.mp (bestReleases_has tagIn isRelease newer)
  obtain ⟨sameVersion, -, -⟩ := bestReleases_isBuild found
  unfold followedOnLine
  rw [isTemplate, isPattern]
  dsimp only
  rw [if_neg (not_not.mpr same)]
  obtain ⟨index, at_⟩ := mem_iff_getElem?.mp
    ((@mem_releases engine pattern template tags build).mpr ⟨release.version, found⟩)
  refine List.mem_map.mpr ⟨followedVersion follow template build index,
    mem_filterMap.mpr ⟨(build, index), mk_mem_zipIdx_iff_getElem?.mpr at_, ?_⟩, ?_⟩
  · dsimp only
    rw [sameVersion, if_neg fun shipped => free (contains_iff_mem.mp shipped)]
  · unfold followedVersion
    rw [sameVersion]

theorem countP_filterMap_zipIdx {Item : Type} {make : Item × Nat → Option GameVersion}
    {property : GameVersion → Bool} (items : List Item) (start : Nat)
    (first : ∀ item index version, make (item, index) = some version → property version = true →
      index = 0) :
    ((items.zipIdx start).filterMap make).countP property ≤ if start = 0 then 1 else 0 := by
  induction items generalizing start with
  | nil => exact Nat.zero_le _
  | cons item items inductionHypothesis =>
    have rest := inductionHypothesis (start + 1)
    rw [if_neg (Nat.succ_ne_zero start)] at rest
    rw [zipIdx_cons, filterMap_cons]
    split
    · exact le_trans rest (Nat.zero_le _)
    case h_2 version isVersion =>
      rw [countP_cons]
      by_cases has : property version = true
      · rw [if_pos has, if_pos (first item start version isVersion has)]
        exact Nat.add_le_add_right rest 1
      · rw [if_neg has]
        exact le_trans rest (Nat.zero_le _)

/-- At most one of the versions the tags add to a line is recommended. -/
theorem countP_followedOnLine :
    (followedOnLine engine game follow tags rule).countP (·.recommended) ≤ 1 := by
  unfold followedOnLine
  split
  case h_2 => exact Nat.zero_le 1
  split
  · exact Nat.zero_le 1
  refine countP_filterMap_zipIdx _ 0 fun release index version isVersion recommended => ?_
  split at isVersion
  · cases isVersion
  · obtain rfl := some.inj isVersion
    exact beq_iff_eq.mp (Bool.and_eq_true_iff.mp recommended).2

end Tags

/-! ### Images -/

/-- The image of a tag in a repository is of that repository, and names the tag. -/
theorem tagOf_image {repository name : String} (named : isTagName name = true) :
    tagOf (repository ++ ":" ++ name) repository = some name := by
  obtain ⟨named, -⟩ := Bool.and_eq_true_iff.mp named
  obtain ⟨some_, chars⟩ := Bool.and_eq_true_iff.mp named
  have notAt : ∀ char ∈ name.toList, (char != '@') = true := by
    intro char charIn
    have allowed := List.all_eq_true.mp chars char charIn
    rw [bne_iff_ne]
    rintro rfl
    exact absurd allowed (by decide)
  have notEmpty : name.toList.isEmpty = false := by
    rw [isEmpty_eq_false_iff]
    intro none
    rw [none] at some_
    cases some_
  have split : (repository ++ ":" ++ name).toList = (repository ++ ":").toList ++ name.toList :=
    String.toList_append
  unfold tagOf
  dsimp only
  rw [split, isPrefixOf_iff_prefix.mpr (prefix_append _ _), drop_left,
    takeWhile_eq_self_iff.mpr notAt, notEmpty, String.ofList_toList]
  rfl

theorem last_of_slash {front last : List Char} (none : ∀ char ∈ last, (char != '/') = true) :
    ((front ++ '/' :: last).reverse.takeWhile (· != '/')).reverse = last := by
  rw [reverse_append, reverse_cons, append_assoc, takeWhile_append_of_pos
    fun char charIn => none char (mem_reverse.mp charIn)]
  rw [singleton_append, takeWhile_cons_of_neg (by decide), append_nil,
    reverse_reverse]

theorem repositoryOf_image {repository name : String} (isRepo : isRepository repository = true)
    (named : isTagName name = true) :
    repositoryOf (repository ++ ":" ++ name) = repository := by
  obtain ⟨owner, inOwner, parts, allowed⟩ : ∃ owner inOwner : List Char,
      repository.toList = owner ++ '/' :: inOwner ∧ ∀ char ∈ inOwner,
        (char.isLower || char.isDigit || ['.', '_', '-'].contains char) = true := by
    unfold isRepository at isRepo
    dsimp only at isRepo
    split at isRepo
    case h_2 => cases isRepo
    case h_1 owner inOwner isSplit =>
      refine ⟨owner, inOwner, ?_, ?_⟩
      · have joined : ['/'].intercalate (repository.toList.splitOn '/') = repository.toList :=
          intercalate_splitOn '/'
        rw [← joined, isSplit, intercalate_cons_cons, intercalate_singleton,
          append_assoc, singleton_append]
      · simp only [Bool.and_eq_true] at isRepo
        exact List.all_eq_true.mp isRepo.2.1.1.2
  have tagChars := (Bool.and_eq_true_iff.mp (Bool.and_eq_true_iff.mp named).1).2
  have isSplit : (repository ++ ":" ++ name).toList =
      owner ++ '/' :: (inOwner ++ ':' :: name.toList) := by
    rw [String.toList_append, String.toList_append, parts, append_assoc, append_assoc]
    rfl
  have lastPart := @last_of_slash owner (inOwner ++ ':' :: name.toList) (by
    intro char charIn
    rw [bne_iff_ne]
    rintro rfl
    obtain inFirst | inSecond := mem_append.mp charIn
    · exact absurd (allowed _ inFirst) (by decide)
    · obtain colon | inTag := mem_cons.mp inSecond
      · cases colon
      · exact absurd (List.all_eq_true.mp tagChars _ inTag) (by decide))
  have before : ∀ char ∈ inOwner, (char != ':' && char != '@') = true := by
    intro char charIn
    rw [Bool.and_eq_true, bne_iff_ne, bne_iff_ne]
    constructor
    · rintro rfl
      exact absurd (allowed _ charIn) (by decide)
    · rintro rfl
      exact absurd (allowed _ charIn) (by decide)
  unfold repositoryOf
  dsimp only
  rw [isSplit, lastPart, takeWhile_append_of_pos before,
    takeWhile_cons_of_neg (by decide), append_nil]
  have front : owner ++ '/' :: (inOwner ++ ':' :: name.toList) =
      (owner ++ ['/']) ++ (inOwner ++ ':' :: name.toList) := by
    rw [append_assoc, singleton_append]
  rw [front, length_append, Nat.add_sub_cancel, take_left, append_assoc,
    singleton_append, ← parts, String.ofList_toList]

/-! ### Accepted versions -/

section Accept

variable {shipped seen : List String} {versions : List GameVersion}

theorem acceptFrom_sublist : (acceptFrom follow shipped seen versions).Sublist versions := by
  induction versions generalizing seen with
  | nil => exact List.Sublist.slnil
  | cons version versions inductionHypothesis =>
    unfold acceptFrom
    split
    · exact inductionHypothesis.cons version
    · exact inductionHypothesis.cons_cons version

/-- What an accepted version is. -/
structure Accepted (follow : TagFollow) (shipped : List String) (version : GameVersion) : Prop where
  followed : version.followed = true
  free : version.id ∉ shipped
  line : ∃ rule ∈ follow.lines, rule.line = version.onLine
  image : (tagOf version.image follow.repository).isSome

theorem acceptable_iff {version : GameVersion} :
    (!version.followed || shipped.contains version.id || seen.contains version.id ||
        !(follow.lines.any fun rule => rule.line == version.onLine) ||
        (tagOf version.image follow.repository).isNone) = false ↔
      Accepted follow shipped version ∧ version.id ∉ seen := by
  simp only [Bool.or_eq_false_iff, Bool.not_eq_false', contains_eq_mem,
    decide_eq_false_iff_not, List.any_eq_true, beq_iff_eq, isNone_eq_false_iff]
  constructor
  · rintro ⟨⟨⟨⟨followed, free⟩, fresh⟩, line⟩, image⟩
    exact ⟨⟨followed, free, line, image⟩, fresh⟩
  · rintro ⟨⟨followed, free, line, image⟩, fresh⟩
    exact ⟨⟨⟨⟨followed, free⟩, fresh⟩, line⟩, image⟩

theorem accepted_of_mem {version : GameVersion}
    (versionIn : version ∈ acceptFrom follow shipped seen versions) :
    Accepted follow shipped version ∧ version.id ∉ seen := by
  induction versions generalizing seen with
  | nil => cases versionIn
  | cons first versions inductionHypothesis =>
    unfold acceptFrom at versionIn
    split at versionIn
    · exact inductionHypothesis versionIn
    case isFalse fits =>
      obtain rfl | later := mem_cons.mp versionIn
      · exact acceptable_iff.mp (Bool.eq_false_of_not_eq_true fits)
      · obtain ⟨accepted, fresh⟩ := inductionHypothesis later
        exact ⟨accepted, fun before => fresh (mem_cons_of_mem _ before)⟩

theorem nodup_acceptFrom : ((acceptFrom follow shipped seen versions).map (·.id)).Nodup := by
  induction versions generalizing seen with
  | nil => exact nodup_nil
  | cons version versions inductionHypothesis =>
    unfold acceptFrom
    split
    · exact inductionHypothesis
    · rw [map_cons, nodup_cons]
      refine ⟨fun again => ?_, inductionHypothesis⟩
      obtain ⟨other, otherIn, same⟩ := List.mem_map.mp again
      exact (accepted_of_mem otherIn).2 (same ▸ mem_cons_self)

/-- Of every version that may be accepted, the id is. -/
theorem id_mem_acceptFrom {version : GameVersion} (versionIn : version ∈ versions)
    (accepted : Accepted follow shipped version) :
    version.id ∈ seen ∨ version.id ∈ (acceptFrom follow shipped seen versions).map (·.id) := by
  induction versions generalizing seen with
  | nil => cases versionIn
  | cons first versions inductionHypothesis =>
    obtain rfl | later := mem_cons.mp versionIn
    · by_cases fresh : version.id ∈ seen
      · exact Or.inl fresh
      · have fits := acceptable_iff.mpr ⟨accepted, fresh⟩
        unfold acceptFrom
        rw [fits]
        exact Or.inr mem_cons_self
    · unfold acceptFrom
      split
      · exact inductionHypothesis later
      · obtain before | inRest := @inductionHypothesis (first.id :: seen) later
        · obtain same | before := mem_cons.mp before
          · exact Or.inr (mem_cons.mpr (Or.inl same))
          · exact Or.inl before
        · exact Or.inr (mem_cons_of_mem _ inRest)

end Accept

end Geeboard.Games.Follow
