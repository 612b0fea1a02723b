/-
This file is about updating a server again and again.

An update moves a server to the newest of the installable versions that are newer
than its own, of the same line and no less stable. "Newer" is read off the version
strings piece by piece, by number where both pieces are numbers and by letters
where one is not, and that is not transitive: 10 is newer than 9, 5x newer than 10,
and 9 newer than 5x. Updates end in a catalog and in every part of it exactly when
no versions go round like that; and in the catalog alone exactly when none do of
which each is ahead of the others an update could go to.
-/

import Geeboard.Panel.Catalogs
import Geeboard.Systems.Chains

namespace Geeboard.UpdateChains

open Panel Systems Catalogs List Option

/-! ### The update of a version -/

/-- Whether one version is newer than another, as far as anybody can say. -/
def isNewer (candidate than : VersionCandidate) : Bool :=
  match said candidate.upstream, said than.upstream with
  | some left, some right => 0 < compareVersions left right
  | _, _ => false

/-- The versions a server on this one may be moved to. -/
def updatesOf (catalog : VersionCatalog) (current : VersionCandidate) : List VersionCandidate :=
  catalog.candidates.filter fun candidate =>
    candidate.supported && candidate.id != current.id && lineOf candidate.line == lineOf current.line &&
      CHANNEL_RANK current.channel ≤ CHANNEL_RANK candidate.channel && isNewer candidate current

/-- The version with an id; no version goes by an empty one. -/
def versionOf (catalog : VersionCatalog) (versionId : Option String) : Option VersionCandidate :=
  (said versionId).bind fun id => catalog.candidates.find? fun candidate => candidate.id == id

/-- What an update would move a server on a version to. -/
def updateTargetFor (sort : ArraySort VersionCandidate) (locale : Collation)
    (catalog : VersionCatalog) (versionId : Option String) : Option VersionCandidate :=
  (versionOf catalog versionId).bind fun current =>
    newestInstallable sort locale (updatesOf catalog current)

/-- The version a server is on after an update. -/
def updated (sort : ArraySort VersionCandidate) (locale : Collation) (catalog : VersionCatalog)
    (versionId : String) : Option String :=
  (updateTargetFor sort locale catalog (some versionId)).map fun target => target.id

/-- From every version of the catalog, updates never lead back, and they end. -/
def UpdatesEnd (sort : ArraySort VersionCandidate) (locale : Collation)
    (catalog : VersionCatalog) : Prop :=
  ∀ version ∈ catalog.candidates,
    NeverBack (updated sort locale catalog) version.id ∧
      StopsWithin (updated sort locale catalog) catalog.candidates.length version.id

/-! ### What may be offered -/

/-- A version may be offered to a server on another one: it is among the versions that one may
be moved to, and it is the first of them where the ranking orders those. -/
def Offered (locale : Collation) (catalog : VersionCatalog) (current next : String) : Prop :=
  ∃ version target, versionOf catalog (some current) = some version ∧ target.id = next ∧
    MayLead (thenBy byChannel (rank locale)) (updatesOf catalog version) target

/-- Offers that may follow one another lead from a version back to it. -/
def GoesRound (locale : Collation) (catalog : VersionCatalog) (versionId : String) : Prop :=
  Relation.TransGen (Offered locale catalog) versionId versionId

/-- One version is newer than another by their version strings, of its line, no less stable, and
supported; and a server can be on that other one, which goes by an id. -/
structure Succeeds (current next : VersionCandidate) : Prop where
  known : current.id ≠ ""
  supported : next.supported = true
  line : lineOf next.line = lineOf current.line
  channel : CHANNEL_RANK current.channel ≤ CHANNEL_RANK next.channel
  newer : ∃ text than, said next.upstream = some text ∧ said current.upstream = some than ∧
    0 < compareVersions text than

/-- Versions among these lead from one back to it, each newer than the one before. -/
def NewerRound (candidates : List VersionCandidate) (version : VersionCandidate) : Prop :=
  Relation.TransGen (fun current next =>
    current ∈ candidates ∧ next ∈ candidates ∧ Succeeds current next) version version

/-- The catalog with these versions only. -/
def onlyWith (catalog : VersionCatalog) (part : List VersionCandidate) : VersionCatalog :=
  { catalog with candidates := part }

section
variable {sort : ArraySort VersionCandidate} {locale : Collation} {catalog : VersionCatalog}

variable {version : VersionCandidate} {current : String}

theorem mem_of_versionOf {id : String} (found : versionOf catalog (some id) = some version) :
    version ∈ catalog.candidates ∧ version.id = id := by
  obtain ⟨other, isOther, found⟩ := bind_eq_some_iff.mp found
  obtain ⟨same, -⟩ := filter_eq_some_iff.mp isOther
  have byId := find?_some found
  rw [some.inj same]
  exact ⟨mem_of_find?_eq_some found, eq_of_beq byId⟩

theorem offered_of_updated {next : String}
    (offer : updated sort locale catalog current = some next) :
    Offered locale catalog current next := by
  obtain ⟨target, isTarget, rfl⟩ := map_eq_some_iff.mp offer
  obtain ⟨version, isVersion, leads⟩ := bind_eq_some_iff.mp isTarget
  exact ⟨version, target, isVersion, rfl, sort.mayLead_of_head? leads⟩

theorem mem_of_updated {next : String} (offer : updated sort locale catalog current = some next) :
    next ∈ catalog.candidates.map fun candidate => candidate.id := by
  obtain ⟨version, target, -, rfl, among, -⟩ := offered_of_updated offer
  exact List.mem_map_of_mem (mem_of_mem_filter among)

/-- The sort that puts versions first which go round. -/
noncomputable def roundFirst (locale : Collation) (catalog : VersionCatalog) :
    ArraySort VersionCandidate :=
  ArraySort.leading fun target => GoesRound locale catalog target.id

/-- Where a version goes round, that sort offers another one that does. -/
theorem updated_roundFirst (round : GoesRound locale catalog current) :
    ∃ next, updated (roundFirst locale catalog) locale catalog current = some next ∧
      GoesRound locale catalog next := by
  obtain ⟨next, offer, back⟩ := Relation.TransGen.head'_iff.mp round
  have nextRound : GoesRound locale catalog next := Relation.TransGen.tail' back offer
  obtain ⟨version, target, isVersion, rfl, leads⟩ := offer
  obtain ⟨head, isHead, headRound⟩ :
      ∃ head, ((roundFirst locale catalog).sort (thenBy byChannel (rank locale))
        (updatesOf catalog version)).head? = some head ∧ GoesRound locale catalog head.id :=
    ArraySort.head?_leading leads nextRound
  refine ⟨head.id, ?_, headRound⟩
  unfold updated updateTargetFor newestInstallable
  rw [isVersion, bind_some, isHead, map_some]

theorem after_roundFirst (round : GoesRound locale catalog current) (count : Nat) :
    ∃ next, after (updated (roundFirst locale catalog) locale catalog) count current = some next ∧
      GoesRound locale catalog next := by
  induction count with
  | zero => exact ⟨current, rfl, round⟩
  | succ count inductionHypothesis =>
    obtain ⟨place, here, placeRound⟩ := inductionHypothesis
    obtain ⟨next, onward, nextRound⟩ := updated_roundFirst placeRound
    refine ⟨next, ?_, nextRound⟩
    rw [after_succ, here, bind_some, onward]

theorem known_of_goesRound {versionId : String} (round : GoesRound locale catalog versionId) :
    ∃ version ∈ catalog.candidates, version.id = versionId := by
  obtain ⟨_, ⟨version, _, isVersion, -⟩, -⟩ := Relation.TransGen.head'_iff.mp round
  exact ⟨version, mem_of_versionOf isVersion⟩

/-- Updating ends in a catalog whatever the sort exactly when no offers that may follow one another
lead back. -/
theorem updatesEnd_iff_notGoesRound :
    (∀ sort : ArraySort VersionCandidate, UpdatesEnd sort locale catalog) ↔
      ∀ versionId, ¬ GoesRound locale catalog versionId := by
  constructor
  · intro ends versionId round
    obtain ⟨version, versionIn, rfl⟩ := known_of_goesRound round
    obtain ⟨-, count, -, last, goes, stops⟩ := ends (roundFirst locale catalog) version versionIn
    obtain ⟨place, here, placeRound⟩ := after_roundFirst round count
    obtain rfl := some.inj (goes.symm.trans here)
    obtain ⟨next, onward, -⟩ := updated_roundFirst placeRound
    rw [onward] at stops
    cases stops
  · intro noCircle sort version versionIn
    have each (current next : String)
        (offer : updated sort locale catalog current = some next) :
        Offered locale catalog current next := offered_of_updated offer
    have fresh := neverBack_of_noCircle each noCircle version.id
    have stops := stopsWithin_of_neverBack (fun _ _ offer => mem_of_updated offer)
      (List.mem_map_of_mem versionIn) fresh
    rw [length_map] at stops
    exact ⟨fresh, stops⟩

/-! ### What the version strings say -/

theorem versionOf_mem (distinct : (catalog.candidates.map fun candidate => candidate.id).Nodup)
    (versionIn : version ∈ catalog.candidates) (known : version.id ≠ "") :
    versionOf catalog (some version.id) = some version := by
  have isSaid : said (some version.id) = some version.id :=
    filter_eq_some_iff.mpr ⟨rfl, bne_iff_ne.mpr known⟩
  unfold versionOf
  rw [isSaid, bind_some]
  rcases found : catalog.candidates.find? fun other => other.id == version.id with _ | other
  · exact absurd (beq_self_eq_true version.id) (find?_eq_none.mp found version versionIn)
  · have same := find?_some found
    rw [found, inj_on_of_nodup_map distinct (mem_of_find?_eq_some found) versionIn
      (eq_of_beq same)]

theorem isNewer_iff {candidate than : VersionCandidate} :
    isNewer candidate than = true ↔ ∃ text other, said candidate.upstream = some text ∧
      said than.upstream = some other ∧ 0 < compareVersions text other := by
  unfold isNewer
  rcases said candidate.upstream with _ | text
  · simp
  · rcases said than.upstream with _ | other
    · simp
    · simp

/-- An update goes to a version that is newer by its string. -/
theorem succeeds_of_offered {next : String} (offer : Offered locale catalog current next) :
    ∃ version target, versionOf catalog (some current) = some version ∧ target.id = next ∧
      target ∈ catalog.candidates ∧ Succeeds version target := by
  obtain ⟨version, target, isVersion, isNext, among, -⟩ := offer
  obtain ⟨targetIn, fits⟩ := mem_filter.mp among
  simp only [Bool.and_eq_true, decide_eq_true_eq, beq_iff_eq] at fits
  have known : version.id ≠ "" := by
    obtain ⟨id, isSaid, -⟩ := bind_eq_some_iff.mp isVersion
    obtain ⟨same, said_⟩ := filter_eq_some_iff.mp isSaid
    rw [(mem_of_versionOf isVersion).2, some.inj same]
    exact bne_iff_ne.mp said_
  exact ⟨version, target, isVersion, isNext, targetIn, known, fits.1.1.1.1, fits.1.1.2, fits.1.2,
    isNewer_iff.mp fits.2⟩

/-- Offers that lead back lead along version strings that do. -/
theorem newerRound_of_goesRound
    (distinct : (catalog.candidates.map fun candidate => candidate.id).Nodup) {versionId : String}
    (round : GoesRound locale catalog versionId) :
    ∃ version, NewerRound catalog.candidates version := by
  have along : ∀ {current last : String}, Relation.TransGen (Offered locale catalog) current last →
      ∃ version target, versionOf catalog (some current) = some version ∧ target.id = last ∧
        target ∈ catalog.candidates ∧ Relation.TransGen (fun current next =>
          current ∈ catalog.candidates ∧ next ∈ catalog.candidates ∧ Succeeds current next)
          version target := by
    intro current last leads
    induction leads with
    | single offer =>
      obtain ⟨version, target, isVersion, isNext, targetIn, succeeds⟩ := succeeds_of_offered offer
      exact ⟨version, target, isVersion, isNext, targetIn,
        .single ⟨(mem_of_versionOf isVersion).1, targetIn, succeeds⟩⟩
    | tail _ offer inductionHypothesis =>
      obtain ⟨version, middle, isVersion, isMiddle, middleIn, leads⟩ := inductionHypothesis
      obtain ⟨other, target, isOther, isNext, targetIn, succeeds⟩ := succeeds_of_offered offer
      obtain ⟨otherIn, sameId⟩ := mem_of_versionOf isOther
      obtain rfl := inj_on_of_nodup_map distinct otherIn middleIn
        (sameId.trans isMiddle.symm)
      exact ⟨version, target, isVersion, isNext, targetIn,
        leads.tail ⟨middleIn, targetIn, succeeds⟩⟩
  obtain ⟨version, target, isVersion, isTarget, targetIn, leads⟩ := along round
  obtain ⟨versionIn, sameId⟩ := mem_of_versionOf isVersion
  obtain rfl := inj_on_of_nodup_map distinct versionIn targetIn (sameId.trans isTarget.symm)
  exact ⟨version, leads⟩

/-- A version that one of a catalog's succeeds is among those an update may go to. -/
theorem mem_updatesOf {target : VersionCandidate}
    (distinct : (catalog.candidates.map fun candidate => candidate.id).Nodup)
    (versionIn : version ∈ catalog.candidates) (targetIn : target ∈ catalog.candidates)
    (succeeds : Succeeds version target) : target ∈ updatesOf catalog version := by
  have apart : target.id ≠ version.id := by
    intro same
    obtain rfl := inj_on_of_nodup_map distinct targetIn versionIn same
    obtain ⟨text, than, isText, isThan, newer⟩ := succeeds.newer
    obtain rfl := some.inj (isText.symm.trans isThan)
    have turned := compareSegments_swap (segments text) (segments text)
    unfold compareVersions at newer
    omega
  refine mem_filter.mpr ⟨targetIn, ?_⟩
  simp only [Bool.and_eq_true, decide_eq_true_eq, beq_iff_eq, bne_iff_ne]
  exact ⟨⟨⟨⟨succeeds.supported, apart⟩, succeeds.line⟩, succeeds.channel⟩,
    isNewer_iff.mpr succeeds.newer⟩

/-- Where every version is succeeded by one of the catalog, an update is offered to each. -/
theorem updated_of_succeeded
    (distinct : (catalog.candidates.map fun candidate => candidate.id).Nodup)
    (each : ∀ version ∈ catalog.candidates, ∃ next ∈ catalog.candidates, Succeeds version next)
    {version : VersionCandidate} (versionIn : version ∈ catalog.candidates) :
    ∃ next ∈ catalog.candidates, updated sort locale catalog version.id = some next.id := by
  obtain ⟨target, targetIn, succeeds⟩ := each version versionIn
  have among := mem_updatesOf distinct versionIn targetIn succeeds
  rcases leads : (sort.sort (thenBy byChannel (rank locale)) (updatesOf catalog version)).head? with
    _ | head
  · rw [head?_eq_none_iff] at leads
    exact absurd (leads ▸ sort.mem_sort.mpr among) not_mem_nil
  · refine ⟨head, mem_of_mem_filter (sort.mem_sort.mp (mem_of_mem_head? leads)), ?_⟩
    unfold updated updateTargetFor newestInstallable
    rw [versionOf_mem distinct versionIn succeeds.known, bind_some, leads, map_some]

/-- There updates never end. -/
theorem not_updatesEnd_of_succeeded
    (distinct : (catalog.candidates.map fun candidate => candidate.id).Nodup)
    (each : ∀ version ∈ catalog.candidates, ∃ next ∈ catalog.candidates, Succeeds version next)
    {version : VersionCandidate} (versionIn : version ∈ catalog.candidates) :
    ¬ UpdatesEnd sort locale catalog := by
  intro ends
  obtain ⟨-, count, -, last, goes, stops⟩ := ends version versionIn
  have onward : ∀ steps, ∃ place ∈ catalog.candidates,
      after (updated sort locale catalog) steps version.id = some place.id := by
    intro steps
    induction steps with
    | zero => exact ⟨version, versionIn, rfl⟩
    | succ steps inductionHypothesis =>
      obtain ⟨place, placeIn, here⟩ := inductionHypothesis
      obtain ⟨next, nextIn, offer⟩ := updated_of_succeeded distinct each placeIn
      exact ⟨next, nextIn, by rw [after_succ, here, bind_some, offer]⟩
  obtain ⟨place, placeIn, here⟩ := onward count
  obtain rfl := some.inj (goes.symm.trans here)
  obtain ⟨next, -, offer⟩ := @updated_of_succeeded sort locale catalog distinct each place placeIn
  exact absurd (offer.symm.trans stops) (some_ne_none next.id)

open Classical in
/-- The versions of a catalog that lie on a circle, each succeeded by another of them. -/
theorem succeeded_of_newerRound {candidates : List VersionCandidate}
    (versionIn : version ∈ candidates.filter fun version => NewerRound candidates version) :
    ∃ next ∈ candidates.filter fun version => NewerRound candidates version,
      Succeeds version next := by
  obtain ⟨-, round⟩ := mem_filter.mp versionIn
  obtain ⟨next, step, back⟩ := Relation.TransGen.head'_iff.mp (of_decide_eq_true round)
  exact ⟨next, mem_filter.mpr ⟨step.2.1,
    decide_eq_true (Relation.TransGen.tail' back step)⟩, step.2.2⟩

theorem newerRound_mono {part candidates : List VersionCandidate} (among : part ⊆ candidates)
    (round : NewerRound part version) :
    NewerRound candidates version :=
  Relation.TransGen.mono (fun _ _ step => ⟨among step.1, among step.2.1, step.2.2⟩) version
    version round

/-- Updating ends in every part of a catalog whatever the sort exactly when no version strings lead
round. -/
theorem updatesEnd_parts_iff
    (distinct : (catalog.candidates.map fun candidate => candidate.id).Nodup) :
    (∀ part, part.Sublist catalog.candidates → ∀ sort : ArraySort VersionCandidate,
        UpdatesEnd sort locale (onlyWith catalog part)) ↔
      ∀ version, ¬ NewerRound catalog.candidates version := by
  classical
  constructor
  · intro ends version round
    have part := @List.filter_sublist _ (fun version =>
      decide (NewerRound catalog.candidates version)) catalog.candidates
    have versionIn : version ∈ catalog.candidates := by
      obtain ⟨_, step, -⟩ := Relation.TransGen.head'_iff.mp round
      exact step.1
    exact @not_updatesEnd_of_succeeded ArraySort.insertion locale (onlyWith catalog _)
      ((part.map _).nodup distinct) (fun _ => succeeded_of_newerRound) version
      (mem_filter.mpr ⟨versionIn, decide_eq_true round⟩) (ends _ part ArraySort.insertion)
  · intro noCircle part among
    refine updatesEnd_iff_notGoesRound.mpr fun versionId round => ?_
    obtain ⟨version, back⟩ := @newerRound_of_goesRound locale (onlyWith catalog part)
      ((among.map _).nodup distinct) versionId round
    exact noCircle version (newerRound_mono among.subset back)

/-- No version strings of whole numbers lead round. -/
theorem not_newerRound_of_whole {candidates : List VersionCandidate}
    (whole : ∀ candidate ∈ candidates, ∀ text, said candidate.upstream = some text → Whole text)
    (version : VersionCandidate) : ¬ NewerRound candidates version := by
  intro round
  have rises : ∀ {current last : VersionCandidate}, Relation.TransGen (fun current next =>
      current ∈ candidates ∧ next ∈ candidates ∧ Succeeds current next) current last →
      ∃ than text, said current.upstream = some than ∧ said last.upstream = some text ∧
        numbersOf (segments than) < numbersOf (segments text) := by
    have rise : ∀ {current next : VersionCandidate}, current ∈ candidates ∧ next ∈ candidates ∧
        Succeeds current next → ∃ than text, said current.upstream = some than ∧
          said next.upstream = some text ∧ numbersOf (segments than) < numbersOf (segments text) := by
      rintro current next ⟨currentIn, nextIn, succeeds⟩
      obtain ⟨text, than, isText, isThan, newer⟩ := succeeds.newer
      rw [compareVersions_whole (whole next nextIn text isText)
        (whole current currentIn than isThan)] at newer
      exact ⟨than, text, isThan, isText, compareUnits_pos.mp newer⟩
    intro current last leads
    induction leads with
    | single step => exact rise step
    | tail _ step inductionHypothesis =>
      obtain ⟨first, middle, isFirst, isMiddle, below⟩ := inductionHypothesis
      obtain ⟨other, text, isOther, isText, above⟩ := rise step
      obtain rfl := some.inj (isMiddle.symm.trans isOther)
      exact ⟨first, text, isFirst, isText, List.lt_trans below above⟩
  obtain ⟨than, text, isThan, isText, below⟩ := rises round
  obtain rfl := some.inj (isThan.symm.trans isText)
  exact List.lt_irrefl _ below

end

/-- In a catalog whose versions have ids of their own, updating ends for every version, in every
part of the catalog and whatever correct sort is used, exactly when no version strings lead round,
each newer than the one before, of its line, no less stable and supported. And in any one catalog it
ends exactly when no versions go round of which each may be the first of those the one before may be
updated to. -/
theorem updatesEnd_iff (locale : Collation) (catalog : VersionCatalog) :
    ((catalog.candidates.map fun candidate => candidate.id).Nodup →
      ((∀ part, part.Sublist catalog.candidates → ∀ sort : ArraySort VersionCandidate,
          UpdatesEnd sort locale (onlyWith catalog part)) ↔
        ∀ version, ¬ NewerRound catalog.candidates version)) ∧
    ((∀ sort : ArraySort VersionCandidate, UpdatesEnd sort locale catalog) ↔
      ∀ versionId, ¬ GoesRound locale catalog versionId) :=
  ⟨updatesEnd_parts_iff, updatesEnd_iff_notGoesRound⟩

/-- A catalog of dotted numbers. -/
def dottedCatalog : VersionCatalog where
  gameId := "game"
  candidates := dotted
  gameLatest := none
  serverLatest := none
  supportedLatest := none
  recommended := none
  providerErrors := []

/-- Updating ends in a catalog of dotted numbers, and in what is left without its first version. -/
theorem updatesEnd_iff_dotted :
    UpdatesEnd ArraySort.insertion Collation.units (onlyWith dottedCatalog dotted) ∧
      UpdatesEnd ArraySort.insertion Collation.units (onlyWith dottedCatalog (dotted.drop 1)) := by
  have whole : ∀ candidate ∈ dotted, ∀ text, said candidate.upstream = some text →
      Whole text := by
    simp only [dotted, forall_mem_cons]
    refine ⟨?_, ?_, ?_, fun _ none_ => absurd none_ not_mem_nil⟩ <;>
    · intro text isText
      obtain rfl := some.inj isText
      decide
  have ends := ((updatesEnd_iff Collation.units dottedCatalog).1 (by decide +kernel)).mpr
    (not_newerRound_of_whole whole)
  exact ⟨ends _ (Sublist.refl _) _, ends _ (drop_sublist 1 _) _⟩

/-- Three versions, each newer than the one before and the first newer than the last. -/
def roundCatalog : VersionCatalog where
  gameId := "game"
  candidates :=
    [{ id := "v9", label := "9", upstream := some "9" },
      { id := "v10", label := "10", upstream := some "10" },
      { id := "v5x", label := "5x", upstream := some "5x" }]
  gameLatest := none
  serverLatest := none
  supportedLatest := none
  recommended := none
  providerErrors := []

theorem updates_go_round :
    ¬ ∀ (sort : ArraySort VersionCandidate) (locale : Collation) (catalog : VersionCatalog),
      (catalog.candidates.map fun candidate => candidate.id).Nodup →
      UpdatesEnd sort locale catalog := by
  intro ends
  have first := ends ArraySort.insertion Collation.units roundCatalog (by decide +kernel)
    { id := "v9", label := "9", upstream := some "9" } mem_cons_self
  exact first.1 0 3 (by decide) "v9" rfl (by decide +kernel)

end Geeboard.UpdateChains
