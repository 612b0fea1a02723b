/-
This file is the truth of the row about its build, over a whole update, rebuild or
rollback with every choice of failing steps.

A rebuild never spoils it. An update spoils it exactly when the write that names
the new workload took effect and neither of two things followed: the version was
written down, or the workload was rebuilt around the version before at least as
far as taking its name out of the row. A rollback has no second way.
-/

import Geeboard.Panel.UpdateRecord

namespace Geeboard.Panel

open Effects Effects.Code

variable {Locals Result : Type} {panel : Workspace} {faults : interface.Site → Outcome}

theorem rowTells_iff_of_same {before after : World} (numbered : Numbered before)
    (same : SameBuild before after) : RowTells panel after ↔ RowTells panel before := by
  refine ⟨fun tells id named => ?_, fun tells => tells.of_same numbered same⟩
  obtain ⟨version, made, records⟩ := tells id (same.runtimeId.trans named)
  exact ⟨version, (same.numbers.made id (numbered id named)).symm.trans made,
    same.recorded.symm.trans records⟩

theorem Names.numbered {world : World} {version : GameVersion} (names : Names world version) :
    Numbered world := by
  obtain ⟨id, named, -, below⟩ := names
  intro other namedOther
  rw [named] at namedOther
  cases namedOther
  exact below

theorem numbered_of_nameless {world : World} (nameless : world.runtimeId = none) :
    Numbered world := by
  intro id named
  rw [nameless] at named
  cases named

theorem RebuildEnd.numbered {version : GameVersion} {before later : World}
    {reached : interface.Site → Prop} {result : Except Failure Unit}
    (numbered : Numbered before)
    (ends : RebuildEnd version faults before reached result later) : Numbered later := by
  cases ends with
  | untouched same => exact numbered.of_same same
  | nameless _ none => exact numbered_of_nameless none
  | named _ names => exact names.numbered

theorem RebuildEnd.sameLabel {version : GameVersion} {before later : World}
    {reached : interface.Site → Prop} {result : Except Failure Unit}
    (ends : RebuildEnd version faults before reached result later) : SameLabel before later := by
  cases ends with
  | untouched same => exact same.toSameLabel
  | nameless same => exact same
  | named same => exact same

/-! ### The undo of an update -/

section Undo

variable {before : World} {locals : Locals}

/-- An undo leaves the row true when it was, and makes it true when it takes the name of the
workload out. -/
theorem goes_undoBuild {job : UpdateJob} (present : before.server.isSome)
    (numbered : Numbered before) (source : job.source = recorded panel before) :
    Goes panel faults (undoBuild panel job) locals before fun reached _ _ later =>
      later.server.isSome ∧ Numbered later ∧
        (RowTells panel later ↔ RowTells panel before ∨ Took faults reached ["gone"]) := by
  unfold undoBuild
  split
  · refine goes_pure ⟨present, numbered, ?_⟩
    exact (or_iff_left fun took : Took faults (fun _ => False) ["gone"] => took.1).symm
  · rename_i version isSource
    refine goes_succeeded (goes_mono (goes_rebuildWorkload present) ?_)
    intro reached result after later ends
    refine ⟨ends.sameLabel.present present, ends.numbered numbered, ?_⟩
    cases ends with
    | untouched same notGone =>
      exact (rowTells_iff_of_same numbered same).trans (or_iff_left notGone).symm
    | nameless same none gone =>
      exact iff_of_true (rowTells_of_nameless none) (.inr gone)
    | named same names gone =>
      refine iff_of_true ((rowTells_iff_of_names names).mpr ?_) (.inr gone)
      rw [same.recorded, ← source, isSource]

/-- The two words an update that failed leaves in the row and in the log. -/
theorem goes_saidFailed {change : ServerChange} (leaves : change.LeavesBuild)
    (actor action target : String) (tone : Tone) (result : OpResult) :
    Goes panel faults (do
        await "state" (.updateServer change)
        logEvent "logged" actor action target tone
        pure result) locals before fun reached _ _ later =>
      (∀ label tail, label ∉ ["state", "logged"] → ¬ reached (label :: tail)) ∧
        SameBuild before later := by
  refine goes_of_begins (begins_bind (begins_call (by decide) _) fun _ =>
    begins_bind (begins_call (by decide) _) fun _ => begins_pure _) (ends_sameBuild ?_ _ _)
  exact uses_bind (uses_call _ leaves) fun _ =>
    uses_bind (uses_call _ trivial) fun _ => uses_pure _

/-- What becomes of an update whose rebuild failed is what becomes of its undo. -/
theorem goes_updateFailed {job : UpdateJob} (user : User) (failure : Failure)
    (present : before.server.isSome) (numbered : Numbered before)
    (source : job.source = recorded panel before) :
    Goes panel faults (updateFailed panel user job failure) locals before
      fun reached _ _ later =>
        RowTells panel later ↔ RowTells panel before ∨ Took faults reached ["undo", "gone"] := by
  refine goes_bind (goes_mono (goes_of_begins
    (show StartsAt ["end"] _ from begins_endProgress (List.mem_singleton.mpr rfl)) (ends_endProgress _ _)) ?_)
  rintro ending _ after ended ⟨others, rfl, same⟩
  refine goes_bind (goes_mono (goes_step (goes_undoBuild (same.present present)
    (numbered.of_same same) (source.trans same.recorded.symm))) ?_)
  rintro undoing (thrown | recovered) afterUndo undone ⟨awayUndo, presentThen, numberedThen, tells⟩
  · rw [tells, rowTells_iff_of_same numbered same]
    exact or_congr_right (and_congr_left' (or_iff_right (others _ _ (by decide))).symm)
  · refine goes_mono (goes_saidFailed (by split <;> exact ⟨rfl, rfl, rfl⟩) _ _ _ _ _) ?_
    rintro saying result afterSaying last ⟨othersSaying, sameSaying⟩
    rw [rowTells_iff_of_same numberedThen sameSaying, tells, rowTells_iff_of_same numbered same]
    refine or_congr_right (and_congr_left' ?_)
    exact ((or_iff_right (others _ _ (by decide))).trans
      (or_iff_left (othersSaying _ _ (by decide)))).symm

end Undo

/-! ### What keeps the row true -/

/-- The write that names the workload an operation has made. -/
def NAMED : interface.Site := ["try", "rebuild", "record"]

/-- The way out of an update: when the new workload was named, the version was written down and
is the one it was made from, or the undo got as far as taking the name out again. -/
def UpdateKept (faults : interface.Site → Outcome) (reached : interface.Site → Prop)
    (resolves : Prop) : Prop :=
  Took faults reached NAMED →
    ((faults NAMED).fault = .done ∧ Written (fun site => faults ("record" :: site)) = true ∧
        resolves) ∨
      ((faults NAMED).fault ≠ .done ∧ Took faults reached ["catch", "undo", "gone"])

/-- A rollback has no undo: what the row records in the end has to be the version. -/
def RollbackKept (faults : interface.Site → Outcome) (reached : interface.Site → Prop)
    (resolves already : Prop) : Prop :=
  Took faults reached NAMED →
    if (faults NAMED).fault = .done ∧ Written (fun site => faults ("record" :: site)) = true
    then resolves else already

section Claimed

variable {before : World} {locals : Locals}

theorem goes_updateClaimed {job : UpdateJob} (user : User) (present : before.server.isSome)
    (tells : RowTells panel before) (numbered : Numbered before)
    (source : job.source = recorded panel before)
    (other : recorded panel before ≠ some job.target) :
    Goes panel faults (updateClaimed panel user job) locals before fun reached _ _ later =>
      RowTells panel later ↔ UpdateKept faults reached
        (wouldRecord panel before
          (catalogLink before job.context.game job.target <|> job.server.gameVersionId)
          job.target.label = some job.target) := by
  refine goes_bind (goes_attempt (goes_mono (goes_step (goes_replaceBuild job present)) ?_))
  rintro trying (failure | _) afterTry tried ⟨awayTry, ends⟩
  · refine goes_mono (goes_step (goes_updateFailed user failure (ends.sameLabel.present present)
      (ends.numbered numbered) (source.trans ends.sameLabel.recorded.symm))) ?_
    rintro catching result after later ⟨awayCatch, tellsLater⟩
    have named : Took faults (fun site => trying site ∨ catching site) NAMED ↔
        Took faults trying NAMED :=
      and_congr_left' (or_iff_left (awayCatch _ _ (by decide)))
    have undone : Took faults (fun site => trying site ∨ catching site)
        ["catch", "undo", "gone"] ↔
          Took (fun site => faults ("catch" :: site)) (fun tail => catching ("catch" :: tail))
            ["undo", "gone"] :=
      and_congr_left' (or_iff_right (awayTry _ _ (by decide)))
    rw [tellsLater, UpdateKept, named, undone]
    cases ends with
    | untouched same _ notNamed =>
      exact iff_of_true (.inl (tells.of_same numbered same)) fun took => absurd took notNamed
    | nameless _ none _ notNamed =>
      exact iff_of_true (.inl (rowTells_of_nameless none)) fun took => absurd took notNamed
    | named same names _ took ended =>
      have untrue : ¬ RowTells panel tried := by
        rw [rowTells_iff_of_names names, same.recorded]
        exact other
      have notDone : (faults NAMED).fault ≠ .done := fun done => by
        rw [NAMED] at done
        rw [done] at ended
        cases ended
      rw [or_iff_right untrue]
      constructor
      · exact fun gone _ => .inr ⟨notDone, gone⟩
      · intro kept
        rcases kept took with ⟨done, -⟩ | ⟨-, gone⟩
        · exact absurd done notDone
        · exact gone
  · cases ends with
    | named same names _ took ended =>
      have done : (faults NAMED).fault = .done := (beq_iff_eq.mp ended.symm)
      refine goes_mono (goes_step (goes_of_ends
        (ends_recordUpdate user job _ (same.present present)))) ?_
      · rintro recording result after later ⟨-, written⟩
        rw [written.rowTells_iff names, same.recorded, same.wouldRecord, same.catalogLink]
        have named : Took faults (fun site => trying site ∨ recording site) NAMED := by
          exact ⟨.inl took.1, took.2⟩
        rw [UpdateKept]
        cases Written fun site => faults ("record" :: site) with
        | true =>
          refine ⟨fun resolves _ => .inl ⟨done, rfl, resolves⟩, fun kept => ?_⟩
          rcases kept named with ⟨-, -, resolves⟩ | ⟨notDone, -⟩
          · exact resolves
          · exact absurd done notDone
        | false =>
          refine iff_of_false other fun kept => ?_
          rcases kept named with ⟨-, absent, -⟩ | ⟨notDone, -⟩
          · cases absent
          · exact notDone done

theorem goes_rollbackClaimed {context : UpdateContext} {backup : BackupRow} {artifact : String}
    {target : GameVersion} {running : Bool} (present : before.server.isSome) :
    Goes panel faults (rollbackClaimed panel context backup artifact target running) locals before
      fun reached ended _ last => RebuildEnd target (fun site => faults ("rebuild" :: site)) before
        (inside "rebuild" reached) ended last := by
  refine RebuildEnd.goes_quiet ["stopping", "stop"] (begins_whenever _ ?_) (by decide)
    (uses_whenever _ ?_) fun _ _ stopped same => ?_
  · exact begins_bind (begins_step (by decide) _) fun _ =>
      begins_bind (begins_step (by decide) _) fun _ => begins_pure _
  · exact uses_bind (makes_mono (makes_report _ _ _) leaves_of_progress) fun _ =>
      uses_bind (uses_step _ (makes_mono (makes_stopGracefully _ _ _ _) leaves_of_stop)) fun _ =>
        uses_pure _
  refine RebuildEnd.goes_quiet ["restoring"] (begins_step (by decide) _) (by decide)
    (makes_mono (makes_report _ _ _) leaves_of_progress) fun _ _ told sameTold => ?_
  refine RebuildEnd.goes_quiet ["restore"] (begins_call (by decide) _) (by decide)
    (uses_call _ trivial) fun _ _ restored sameRestored => ?_
  exact goes_stepRebuild (((same.trans sameTold).trans sameRestored).present present)

theorem goes_rebuildClaimed {context : UpdateContext} (version : GameVersion) {start : Bool}
    {stopping : Bool} (present : before.server.isSome) :
    Goes panel faults (rebuildClaimed panel context version start) stopping before
      fun reached ended _ last => RebuildEnd version (fun site => faults ("rebuild" :: site)) before
        (inside "rebuild" reached) ended last := by
  refine RebuildEnd.goes_quiet ["stopping", "stop"] (begins_whenever _ ?_) (by decide)
    (uses_whenever _ ?_) fun _ _ later same => goes_stepRebuild (same.present present)
  · exact begins_bind (begins_assign _) fun _ => begins_bind (begins_step (by decide) _) fun _ =>
      begins_bind (begins_step (by decide) _) fun _ => begins_assign _
  · exact uses_bind (uses_assign _) fun _ =>
      uses_bind (makes_mono (makes_report _ _ _) leaves_of_progress) fun _ =>
      uses_bind (uses_step _ (makes_mono (makes_stopGracefully _ _ _ _) leaves_of_stop)) fun _ =>
        uses_assign _

end Claimed

/-! ### From the request to the claim -/

/-- The write of an undo that takes the name of the workload out. -/
def UNNAMED : interface.Site := ["catch", "undo", "gone"]

/-- A condition on the sites of a run that looks at these two writes only, and asks nothing of a
run that names no workload. -/
structure Minds (kept : (interface.Site → Prop) → Prop) : Prop where
  idle : ∀ reached : interface.Site → Prop, ¬ reached NAMED → kept reached
  apart : ∀ earlier reached : interface.Site → Prop, ¬ earlier NAMED → ¬ earlier UNNAMED →
    (kept (fun site => earlier site ∨ reached site) ↔ kept reached)

theorem minds_updateKept (resolves : Prop) :
    Minds fun reached => UpdateKept faults reached resolves := by
  refine ⟨fun reached notNamed took => absurd took.1 notNamed, ?_⟩
  intro earlier reached notNamed notUnnamed
  have named : Took faults (fun site => earlier site ∨ reached site) NAMED ↔
      Took faults reached NAMED := and_congr_left' (or_iff_right notNamed)
  have unnamed : Took faults (fun site => earlier site ∨ reached site) UNNAMED ↔
      Took faults reached UNNAMED := and_congr_left' (or_iff_right notUnnamed)
  show UpdateKept _ _ _ ↔ UpdateKept _ _ _
  unfold UpdateKept
  rw [UNNAMED] at unnamed
  rw [named, unnamed]

theorem minds_rollbackKept (resolves already : Prop) :
    Minds fun reached => RollbackKept faults reached resolves already := by
  refine ⟨fun reached notNamed took => absurd took.1 notNamed, ?_⟩
  intro earlier reached notNamed _
  have named : Took faults (fun site => earlier site ∨ reached site) NAMED ↔
      Took faults reached NAMED := and_congr_left' (or_iff_right notNamed)
  show RollbackKept _ _ _ _ ↔ RollbackKept _ _ _ _
  unfold RollbackKept
  rw [named]

theorem minds_nothing : Minds fun _ => True :=
  ⟨fun _ _ => trivial, fun _ _ _ _ => Iff.rfl⟩

section Request

variable {before : World} {locals : Locals} (labels : List String)
  {kept : (interface.Site → Prop) → Prop}

/-- Code that leaves the build alone keeps the row true, and names no workload. -/
theorem Minds.goes_end {code : PanelCode Locals Result} (minds : Minds kept)
    (begins : StartsAt labels code) (away : "try" ∉ labels)
    (quiet : Makes LeavesBuild code) (tells : RowTells panel before)
    (numbered : Numbered before) :
    Goes panel faults code locals before fun reached _ _ last =>
      RowTells panel last ↔ kept reached := by
  refine goes_mono (goes_of_begins begins (ends_sameBuild quiet _ _)) ?_
  intro reached result after last ⟨others, same⟩
  exact iff_of_true (tells.of_same numbered same) (minds.idle _ (others _ _ away))

/-- What leaves the build alone may come first. -/
theorem Minds.goes_quiet {First : Type} {first : PanelCode Locals First}
    {rest : First → PanelCode Locals Result} (told : Except Failure First → Prop)
    (minds : Minds kept) (begins : StartsAt labels first)
    (awayTry : "try" ∉ labels) (awayCatch : "catch" ∉ labels) (quiet : Makes LeavesBuild first)
    (tells : RowTells panel before) (numbered : Numbered before)
    (ends : Ends panel faults first locals before fun result _ _ => told result)
    (next : ∀ result after later, SameBuild before later → told (.ok result) →
      RowTells panel later → Numbered later →
      Goes panel faults (rest result) after later fun reached _ _ last =>
        RowTells panel last ↔ kept reached) :
    Goes panel faults (first >>= rest) locals before fun reached _ _ last =>
      RowTells panel last ↔ kept reached := by
  refine goes_bind (goes_mono (goes_of_begins begins
    (ends_and (ends_sameBuild quiet _ _) ends)) ?_)
  rintro earlier (failure | result) after later ⟨others, same, said⟩
  · exact iff_of_true (tells.of_same numbered same) (minds.idle _ (others _ _ awayTry))
  · refine goes_mono (next result after later same said (tells.of_same numbered same)
      (numbered.of_same same)) fun reached result after last iff => ?_
    exact iff.trans (minds.apart _ _ (others _ _ awayTry) (others _ _ awayCatch)).symm

/-- Nothing is said of the result. -/
theorem ends_any {code : PanelCode Locals Result} :
    Ends panel faults code locals before fun _ _ _ => True := trivial

end Request

end Geeboard.Panel
