/-
This file is the rebuild of a workload, by the two writes that make it known.

A rebuild takes the workload's name out of the row once the old workload is gone,
and puts the name of the new one in when it has been made. Which of the two writes
took effect says which of three ends there is: the row names what it named before,
it names nothing, or it names a workload made from the version that was asked for.
-/

import Geeboard.Panel.BuildRecord

namespace Geeboard.Panel

open Effects Effects.Code

variable {Locals Result : Type} {panel : Workspace} {faults : interface.Site → Outcome}

/-! ### What an install makes -/

/-- A workload that a node says it has made is made from its plan. -/
theorem made_of_provision {findGame : GameId → Option GameDefinition} {outcome : Outcome}
    {at_ : NodeId} {plan : Plan} {world : World} {status : RuntimeStatus}
    (provisioned : (answer findGame outcome (.node at_ (.provision plan)) world).1 = .ok status) :
    Made (answer findGame outcome (.node at_ (.provision plan)) world).2 status.id
      plan.version := by
  obtain ⟨failure, answered⟩ | ⟨reply, after, performed, ⟨answered, -⟩ | ⟨failure, answered, -⟩⟩ :=
    @answer_cases findGame outcome (.node at_ (.provision plan)) world
  · rw [answered] at provisioned
    cases provisioned
  · rw [answered] at provisioned ⊢
    cases provisioned
    cases performed
    exact ⟨Function.update_self _ _ _, Nat.lt_succ_self _⟩
  · rw [answered] at provisioned
    cases provisioned

/-- What has been made stays made, whatever code runs. -/
theorem ends_made (code : PanelCode Locals Result) {id : RuntimeId} {version : GameVersion}
    {world : World} (made : Made world id version) (locals : Locals) :
    Ends panel faults code locals world fun _ _ later => Made later id version :=
  have kept : ∀ outcome call world, Made world id version →
      Made ((machine panel.findGame).answer 0 outcome call world).2 id version :=
    fun outcome call _ before => before.of_numbers (answer_numbers outcome call _)
  ends_of_kept kept code made

/-- A piece of an install ends as its code does, but for the words of its failure. -/
theorem ends_installStep {stage : String} {code : PanelCode Locals Result} {locals : Locals}
    {world : World} {post : Except Failure Result → Locals → World → Prop}
    (ends : Ends panel faults code locals world fun result after later =>
      match result with
      | .ok made => post (.ok made) after later
      | .error failure => post (.error (asInstallFailure failure stage)) after later) :
    Ends panel faults (installStep stage code) locals world post := by
  refine ends_bind (ends_attempt (ends_mono ends ?_))
  rintro (failure | made) after later holds
  · exact ends_throw holds
  · exact ends_pure holds

/-- The number a node gives the workload it makes for an install is that of a workload made from
the plan. -/
theorem ends_provision (context : InstallContext) (locals : Locals) (world : World) :
    Ends panel faults (installStep "provision" do
        report "provisioning" "provision" "Creating the server"
        ask "provision" context.at_ (.provision context.plan)) locals world
      fun result _ later => ∀ status, result = .ok status →
        Made later status.id context.plan.version := by
  refine ends_installStep (ends_bind_any (fun _ _ _ _ same => nomatch same) fun _ after later => ?_)
  refine ends_call ?_
  split
  · rename_i status provisioned
    rintro _ ⟨⟩
    exact made_of_provision provisioned
  · intro _ same
    cases same

/-- An install that settles is addressed as it was made. -/
theorem ends_settleInstall (context : InstallContext) (ref : RuntimeRef)
    (provisioned : RuntimeStatus) (locals : Locals) (world : World) :
    Ends panel faults (settleInstall context ref provisioned) locals world
      fun result _ _ => ∀ installed, result = .ok installed → installed.ref = ref := by
  refine ends_bind_any (fun _ _ _ _ same => nomatch same) fun written after later => ?_
  split
  · refine ends_bind_any (fun _ _ _ _ same => nomatch same) fun started after later => ?_
    refine ends_pure ?_
    rintro _ ⟨⟩
    rfl
  · refine ends_pure ?_
    rintro _ ⟨⟩
    rfl

/-- The workload an install ends with was made in it, from its plan. -/
theorem ends_installServer (context : InstallContext) (locals : Locals) (world : World) :
    Ends panel faults (installServer context) locals world fun result _ later =>
      ∀ installed, result = .ok installed →
        ∃ id, installed.ref.runtimeId = some id ∧ Made later id context.plan.version := by
  refine ends_bind_any (fun _ _ _ _ same => nomatch same) fun _ after later => ?_
  refine ends_bind_any (fun _ _ _ _ same => nomatch same) fun _ after later => ?_
  refine ends_bind (ends_mono (ends_provision context _ _) ?_)
  rintro (failure | provisioned) after later made
  · intro _ same
    cases same
  have isMade := made provisioned rfl
  refine ends_bind (ends_attempt (ends_mono
    (ends_and (ends_settleInstall context _ provisioned _ _) (ends_made _ isMade _)) ?_))
  rintro (failure | installed) after later ⟨addressed, stillMade⟩
  · exact ends_bind_any (fun _ _ _ _ same => nomatch same) fun _ after later =>
      ends_throw fun _ same => nomatch same
  · refine ends_pure ?_
    rintro _ ⟨⟩
    rw [addressed installed rfl]
    exact ⟨_, rfl, stillMade⟩

/-! ### The write that names a workload -/

/-- The step was awaited and took effect. -/
def Took (faults : interface.Site → Outcome) (reached : interface.Site → Prop)
    (site : interface.Site) : Prop := reached site ∧ (faults site).takesEffect = true

/-- A write of the row that records no version leaves the label alone, and names the workload it
says when it takes effect. -/
theorem answer_nameWorkload {world : World} (present : world.server.isSome) (outcome : Outcome)
    {change : ServerChange} (sameNode : change.nodeId = none) (samePort : change.port = none)
    (noVersion : change.version = none) (noLink : change.gameVersionId = none) :
    SameLabel world (answer panel.findGame outcome (.updateServer change) world).2 ∧
      (answer panel.findGame outcome (.updateServer change) world).2.runtimeId =
        (if outcome.takesEffect then change.runtimeId.getD world.runtimeId
          else world.runtimeId) ∧
      (answer panel.findGame outcome (.updateServer change) world).1 =
        if outcome.fault = .done then .ok () else .error outcome.failure := by
  obtain ⟨row, there⟩ := Option.isSome_iff_exists.mp present
  have frame := @answer_frame panel.findGame outcome (.updateServer change) world
  have numbers := @answer_numbers panel.findGame outcome (.updateServer change) world
  have answered := @answer_updateServer panel.findGame _ _ there outcome _ sameNode samePort
  refine ⟨⟨?_, frame.catalog, numbers⟩, ?_, by rw [answered]⟩
  · rw [answered]
    cases outcome.takesEffect with
    | false => simp [World.label]
    | true => simp [World.label, there, ServerRow.apply, noVersion, noLink]
  · rw [answered]
    cases outcome.takesEffect with
    | false => simp [World.runtimeId]
    | true =>
      rw [if_pos rfl, if_pos rfl]
      show (change.runtimeId.getD row.runtimeId) = change.runtimeId.getD (world.server.bind _)
      rw [there, Option.bind_some]

/-! ### The rebuild -/

/-- How a rebuild around a version leaves the row, by which of its two writes took effect. -/
inductive RebuildEnd (version : GameVersion) (faults : interface.Site → Outcome) (before : World)
    (reached : interface.Site → Prop) : Except Failure Unit → World → Prop
  | untouched {failure : Failure} {later : World} (same : SameBuild before later)
      (gone : ¬ Took faults reached ["gone"]) (record : ¬ Took faults reached ["record"]) :
      RebuildEnd version faults before reached (.error failure) later
  | nameless {failure : Failure} {later : World} (same : SameLabel before later)
      (none : later.runtimeId = none) (gone : Took faults reached ["gone"])
      (record : ¬ Took faults reached ["record"]) :
      RebuildEnd version faults before reached (.error failure) later
  | named {result : Except Failure Unit} {later : World} (same : SameLabel before later)
      (names : Names later version) (gone : Took faults reached ["gone"])
      (record : Took faults reached ["record"])
      (ended : result.isOk = ((faults ["record"]).fault == .done)) :
      RebuildEnd version faults before reached result later

/-- What comes before a rebuild and leaves the build alone changes nothing about its end. -/
theorem RebuildEnd.after {version : GameVersion} {before middle later : World}
    {earlier reached : interface.Site → Prop} {result : Except Failure Unit}
    (same : SameBuild before middle) (awayGone : ¬ earlier ["gone"])
    (awayRecord : ¬ earlier ["record"])
    (ends : RebuildEnd version faults middle reached result later) :
    RebuildEnd version faults before (fun site => earlier site ∨ reached site) result later := by
  have gone : Took faults (fun site => earlier site ∨ reached site) ["gone"] ↔
      Took faults reached ["gone"] :=
    and_congr_left' (or_iff_right awayGone)
  have record : Took faults (fun site => earlier site ∨ reached site) ["record"] ↔
      Took faults reached ["record"] :=
    and_congr_left' (or_iff_right awayRecord)
  cases ends with
  | untouched kept notGone notRecord =>
    exact .untouched (same.trans kept) (gone.not.mpr notGone) (record.not.mpr notRecord)
  | nameless kept none took notRecord =>
    exact .nameless (same.toSameLabel.trans kept) none (gone.mpr took) (record.not.mpr notRecord)
  | named kept names took named ended =>
    exact .named (same.toSameLabel.trans kept) names (gone.mpr took) (record.mpr named) ended

/-- How installing anew leaves a row that names no workload: naming none, or naming a workload
made from the version, once that write took effect. -/
structure NewEnd (version : GameVersion) (faults : interface.Site → Outcome) (before : World)
    (reached : interface.Site → Prop) (result : Except Failure Unit) (later : World) : Prop where
  same : SameLabel before later
  ended : (Took faults reached ["record"] ∧ Names later version ∧
      result.isOk = ((faults ["record"]).fault == .done)) ∨
    (¬ Took faults reached ["record"] ∧ later.runtimeId = none ∧ result.isOk = false)

theorem NewEnd.after {version : GameVersion} {before middle later : World}
    {earlier reached : interface.Site → Prop} {result : Except Failure Unit}
    (same : SameBuild before middle) (away : ¬ earlier ["record"])
    (ends : NewEnd version faults middle reached result later) :
    NewEnd version faults before (fun site => earlier site ∨ reached site) result later := by
  have record : Took faults (fun site => earlier site ∨ reached site) ["record"] ↔
      Took faults reached ["record"] := and_congr_left' (or_iff_right away)
  refine ⟨same.toSameLabel.trans ends.same, ?_⟩
  rw [record]
  exact ends.ended

theorem NewEnd.goes_after {version : GameVersion} {before middle : World} {locals : Locals}
    {code : PanelCode Locals Unit} {earlier : interface.Site → Prop}
    (same : SameBuild before middle) (away : ¬ earlier ["record"])
    (goes : Goes panel faults code locals middle fun reached result _ later =>
      NewEnd version faults middle reached result later) :
    Goes panel faults code locals middle fun reached result _ later =>
      NewEnd version faults before (fun site => earlier site ∨ reached site) result later :=
  goes_mono goes fun _ _ _ _ ends => ends.after same away

section Rebuild

variable {server : ServerRow} {game : GameDefinition} {version : GameVersion} {at_ : NodeId}
  {ref : RuntimeRef} {start proveItStarts : Bool} {locals : Locals} {before : World}

/-- The write that puts a workload made from the version into a row that names none. -/
theorem goes_record {id : RuntimeId} {change : ServerChange} (nameless : before.runtimeId = none)
    (present : before.server.isSome) (made : Made before id version)
    (named : change.runtimeId = some (some id)) (sameNode : change.nodeId = none)
    (samePort : change.port = none) (noVersion : change.version = none)
    (noLink : change.gameVersionId = none) :
    Goes panel faults (await "record" (.updateServer change)) locals before
      fun reached result _ later => NewEnd version faults before reached result later := by
  obtain ⟨same, names, said⟩ := @answer_nameWorkload panel _ present (faults ["record"])
    _ sameNode samePort noVersion noLink
  rw [named, Option.getD_some, nameless] at names
  refine goes_call ⟨same, ?_⟩
  rw [said]
  cases took : (faults ["record"]).takesEffect with
  | true =>
    rw [if_pos took] at names
    refine .inl ⟨⟨rfl, took⟩, ⟨id, names, made.of_numbers same.numbers⟩, ?_⟩
    split
    · rename_i done
      rw [done]
      rfl
    · rename_i notDone
      exact (beq_false_of_ne notDone).symm
  | false =>
    rw [if_neg (by rw [took]; exact Bool.false_ne_true)] at names
    refine .inr ⟨fun record => Bool.false_ne_true (took.symm.trans record.2), names, ?_⟩
    rw [if_neg]
    · rfl
    · intro done
      rw [Outcome.takesEffect, done] at took
      cases took

theorem goes_installAnew (nameless : before.runtimeId = none) (present : before.server.isSome) :
    Goes panel faults (installAnew panel server game version at_ ref start proveItStarts) locals
      before fun reached result _ later => NewEnd version faults before reached result later := by
  unfold installAnew
  dsimp only
  have quiet : ∀ context : InstallContext, Makes LeavesBuild
      (step "install" (installServer context) : PanelCode Locals InstallResult) :=
    fun context => uses_step _ (makes_mono (makes_installServer context) leaves_of_install)
  refine goes_bind (goes_mono (goes_of_begins
    (show StartsAt ["install"] _ from begins_step (List.mem_singleton.mpr rfl) _)
    (ends_and (ends_sameBuild (quiet _) _ _) (ends_step (ends_installServer _ _ _)))) ?_)
  rintro installing (failure | result) after later ⟨away, same, made⟩
  · exact ⟨same.toSameLabel, .inr ⟨fun took => away "record" [] (by decide) took.1,
      same.runtimeId.trans nameless, rfl⟩⟩
  obtain ⟨id, named, isMade⟩ := made result rfl
  refine NewEnd.goes_after same (away "record" [] (by decide)) ?_
  refine goes_bind (goes_mono (goes_of_begins (show StartsAt ["stop"] _ from begins_whenever _ ?_)
    (ends_and (ends_sameBuild (uses_whenever _ (makes_swallowed (uses_call _ ?_))) _ _)
      (ends_made _ isMade _))) ?_)
  · exact begins_bind (begins_attempt (begins_call (List.mem_singleton.mpr rfl) _)) fun _ =>
      begins_pure _
  · trivial
  rintro stopping (failure | _) settled stopped ⟨awayStop, sameStop, stillMade⟩
  · exact ⟨sameStop.toSameLabel, .inr ⟨fun took => awayStop "record" [] (by decide) took.1,
      (same.trans sameStop).runtimeId.trans nameless, rfl⟩⟩
  refine NewEnd.goes_after sameStop (awayStop "record" [] (by decide)) ?_
  have sameNow := @sameBuild_answer panel.findGame (faults ["now"]) .now stopped trivial
  have kept := (same.trans sameStop).trans sameNow
  refine goes_bind (goes_call ?_)
  split
  · exact NewEnd.goes_after sameNow (by decide) (goes_record (kept.runtimeId.trans nameless)
      (kept.present present) (stillMade.of_numbers sameNow.numbers) (congrArg some named)
      rfl rfl rfl rfl)
  · exact ⟨sameNow.toSameLabel, .inr ⟨fun took => absurd took.1 (by decide),
      kept.runtimeId.trans nameless, rfl⟩⟩

/-- Taking the name out and installing anew, from a row that may name a workload. -/
theorem goes_goneThenAnew (present : before.server.isSome) :
    Goes panel faults (do
        await "gone" (.updateServer { runtimeId := some none })
        installAnew panel server game version at_ ref start proveItStarts) locals
      before fun reached result _ later =>
        RebuildEnd version faults before reached result later := by
  obtain ⟨same, names, said⟩ := @answer_nameWorkload panel _ present (faults ["gone"])
    { runtimeId := some none } rfl rfl rfl rfl
  rw [Option.getD_some] at names
  refine goes_bind (goes_call ?_)
  rw [said]
  cases fault : (faults ["gone"]).fault with
  | failed =>
    have notTook : (faults ["gone"]).takesEffect = false := by rw [Outcome.takesEffect, fault]; rfl
    rw [if_neg (by rw [notTook]; exact Bool.false_ne_true)] at names
    rw [if_neg (by decide)]
    exact .untouched ⟨same, names⟩ (fun took => Bool.false_ne_true (notTook.symm.trans took.2))
      fun took => absurd took.1 (by decide)
  | doneThenFailed =>
    have took : (faults ["gone"]).takesEffect = true := by rw [Outcome.takesEffect, fault]; rfl
    rw [if_pos took] at names
    rw [if_neg (by decide)]
    exact .nameless same names ⟨rfl, took⟩ fun took => absurd took.1 (by decide)
  | done =>
    have took : (faults ["gone"]).takesEffect = true := by rw [Outcome.takesEffect, fault]; rfl
    rw [if_pos took] at names
    rw [if_pos rfl]
    refine goes_mono (goes_installAnew names (same.present present)) ?_
    rintro reached result after later ⟨sameNew, ended⟩
    have gone : Took faults (fun site => ["gone"] = site ∨ reached site) ["gone"] :=
      ⟨.inl rfl, took⟩
    have record : Took faults (fun site => ["gone"] = site ∨ reached site) ["record"] ↔
        Took faults reached ["record"] := and_congr_left' (or_iff_right (by decide))
    rcases ended with ⟨named, namesIt, ok⟩ | ⟨notNamed, nameless, notOk⟩
    · exact .named (same.trans sameNew) namesIt gone (record.mpr named) ok
    · cases result with
      | ok _ => cases notOk
      | error failure =>
        exact .nameless (same.trans sameNew) nameless gone (record.not.mpr notNamed)

theorem RebuildEnd.goes_after {middle : World} {code : PanelCode Locals Unit}
    {earlier : interface.Site → Prop} (same : SameBuild before middle)
    (awayGone : ¬ earlier ["gone"]) (awayRecord : ¬ earlier ["record"])
    (goes : Goes panel faults code locals middle fun reached result _ later =>
      RebuildEnd version faults middle reached result later) :
    Goes panel faults code locals middle fun reached result _ later =>
      RebuildEnd version faults before (fun site => earlier site ∨ reached site) result later :=
  goes_mono goes fun _ _ _ _ ends => ends.after same awayGone awayRecord

/-- A rebuild leaves the row in one of three ways. -/
theorem goes_rebuildWorkload (present : before.server.isSome) :
    Goes panel faults
      (rebuildWorkload panel server game version at_ ref start proveItStarts) locals before
      fun reached result _ later => RebuildEnd version faults before reached result later := by
  unfold rebuildWorkload
  refine goes_bind (goes_mono (goes_of_begins (begins_allowedThere server game)
    (ends_sameBuild (makes_allowedThere server game trivial) _ _)) ?_)
  rintro asking (failure | _) afterAsking asked ⟨away, same⟩
  · exact .untouched same (fun took => away "gone" [] (by decide) took.1)
      fun took => away "record" [] (by decide) took.1
  refine RebuildEnd.goes_after same (away "gone" [] (by decide)) (away "record" [] (by decide)) ?_
  refine goes_bind (goes_mono (goes_of_begins (begins_fetchUntouched at_ version.image)
    (ends_sameBuild (makes_fetchUntouched at_ version.image trivial) _ _)) ?_)
  rintro fetching (failure | _) afterFetching fetched ⟨awayFetch, sameFetch⟩
  · exact .untouched sameFetch (fun took => awayFetch "gone" [] (by decide) took.1)
      fun took => awayFetch "record" [] (by decide) took.1
  refine RebuildEnd.goes_after sameFetch (awayFetch "gone" [] (by decide))
    (awayFetch "record" [] (by decide)) ?_
  have sameDestroy := @sameBuild_answer panel.findGame (faults ["destroy"])
    (.node at_ (.destroy ref false)) fetched trivial
  refine goes_bind (goes_call ?_)
  split
  · exact RebuildEnd.goes_after sameDestroy (by decide) (by decide)
      (goes_goneThenAnew (((same.trans sameFetch).trans sameDestroy).present present))
  · exact .untouched sameDestroy (fun took => absurd took.1 (by decide))
      fun took => absurd took.1 (by decide)

end Rebuild

end Geeboard.Panel
