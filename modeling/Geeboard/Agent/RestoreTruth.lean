/-
This file compares what a failed restore says about the world with what became
of the world.

A restore that fails either carries the word that the world is untouched, the
word that it is incomplete, or no word at all, and the panel decides by that
word what it makes of the server. The word is the right one exactly when the
steps that fail are steps the code has wrapped: `TellsTruth` lists them in the
order in which the restore comes to them, and `restore_tells_truth_iff` says
that nothing else is needed and nothing less will do.

The proof follows the code: one lemma for the exchange, one for the staging
before it, one for the restore in place, and the checks in front.
-/

import Geeboard.Agent.Outcomes

namespace Geeboard.Agent

open Effects Code

/-! ### What is to be compared -/

/-- What the panel takes the world to be after a failed restore, from the word that came
with the error. -/
inductive WorldWord where
  | unchanged
  | incomplete
  | unknown
  deriving DecidableEq, Repr

/-- The panel's reading: a restore that never reached the node left the world alone, and
otherwise the node's own word is taken. -/
def worldWord (touched : Bool) (said : Option RestoreStage) : WorldWord :=
  if touched = false ∨ said = some .untouched then .unchanged
  else if said = some .incomplete then .incomplete
  else .unknown

/-- A failure tells the truth about the server's directory: it says that it is untouched
exactly when its files are what they were, and that it is incomplete exactly when they are
not, and the panel reads it so. -/
def Truthful (serverId : String) (before after : Disk) (error : Failure) : Prop :=
  (error.stage = some .untouched ↔ after.tree [serverId] = before.tree [serverId]) ∧
    (error.stage = some .incomplete ↔ after.tree [serverId] ≠ before.tree [serverId]) ∧
    (worldWord true error.stage = .unchanged ↔
      after.tree [serverId] = before.tree [serverId]) ∧
    (worldWord true error.stage = .incomplete ↔
      after.tree [serverId] ≠ before.tree [serverId])

/-- Every failure of a restore that ended in `outcome` tells the truth. -/
def Told {Result : Type} (serverId : String) (before : Disk)
    (outcome : Except Failure Result × Disk) : Prop :=
  ∀ error, outcome.1 = .error error → Truthful serverId before outcome.2 error

section Told

variable {Result : Type} {serverId : String} {before after : Disk}

@[simp] theorem told_ok (result : Result) :
    Told serverId before ((.ok result, after) : Except Failure Result × Disk) := by
  intro error raised
  cases raised

theorem told_error (error : Failure) :
    Told serverId before ((.error error, after) : Except Failure Result × Disk) ↔
      Truthful serverId before after error := by
  constructor
  · intro told
    exact told error rfl
  · intro truthful other raised
    cases raised
    exact truthful

theorem truthful_untouched {error : Failure} (stage : error.stage = some .untouched) :
    Truthful serverId before after error ↔
      after.tree [serverId] = before.tree [serverId] := by
  simp [Truthful, worldWord, stage]

theorem truthful_incomplete {error : Failure} (stage : error.stage = some .incomplete) :
    Truthful serverId before after error ↔
      after.tree [serverId] ≠ before.tree [serverId] := by
  simp [Truthful, worldWord, stage]

theorem not_truthful_silent {error : Failure} (stage : error.stage = none) :
    ¬ Truthful serverId before after error := by
  intro truthful
  simp [Truthful, worldWord, stage] at truthful

end Told

/-! ### The exchange -/

/-- When the old world was set aside, what stands at its place is what the exchange left
there: the new world, if the exchange was done but reported otherwise. Putting the old
world back must then succeed, or fail and leave something that differs from it. -/
def BackTold (faults : Faults) (before : Disk) (root : Path) (there : Option Tree) : Prop :=
  if there ≠ none ∧ there ≠ some [] then before.tree root ≠ there
  else Done faults [.putBack] ∨
    (¬ TakesEffect faults [.putBack] ∧ before.tree root ≠ there)

/-- The exchange of a world for its replacement tells the truth. -/
def ExchangeTold (faults : Faults) (before : Disk) (root : Path) (contents : Tree) : Prop :=
  if Done faults [.statBefore] ∧ before.entries root ≠ none then
    if Done faults [.setAside] ∧ Done faults [.exchange] then True
    else
      TakesEffect faults [.setAside] ∧ Done faults [.clearStaging] ∧
        BackTold faults before root
          (if Done faults [.setAside] ∧ TakesEffect faults [.exchange] then some contents
          else none)
  else if Free before root ∧ TakesEffect faults [.exchange] then
    Done faults [.exchange] ∨
      (Done faults [.clearStaging] ∧ before.tree root = some contents)
  else Done faults [.clearStaging]

theorem notExchanged_told (faults : Faults) (serverId suffix : String) (error : Failure) (restored : Bool) (before disk : Disk) :
    Told serverId before (ran faults (notExchanged serverId suffix error restored) disk) ↔
      Done faults [.clearStaging] ∧
        (restored = true ↔ disk.tree [serverId] = before.tree [serverId]) := by
  unfold notExchanged
  rw [ran_bind]
  simp only [ran_rm]
  obtain ⟨done, answered⟩ | ⟨notDone, after, kept, answered⟩ :=
    answer_remove (faults [.clearStaging]) [stagingOf serverId suffix] disk
  · rw [answered]
    have apart := root_ne_staging serverId suffix
    cases restored with
    | true =>
      simp only [if_pos, ran_throw, told_error]
      rw [truthful_untouched rfl, Disk.tree_put_other _ _ apart]
      simp [Done, done]
    | false =>
      simp only [Bool.false_eq_true, if_false, ran_throw, told_error]
      rw [truthful_incomplete rfl, Disk.tree_put_other _ _ apart]
      simp [Done, done]
  · rw [answered]
    simp only [told_error]
    constructor
    · intro truthful
      exact absurd truthful (not_truthful_silent rfl)
    · intro told
      exact absurd told.1 notDone


section Exchange

variable {faults : Faults} {serverId suffix : String} {before disk : Disk} {contents : Tree}
  {touched : Nat} (files : Nat)

/-- The exchange where no world was found to set aside. -/
theorem exchange_told_without
    (root : disk.entries [serverId] = before.entries [serverId])
    (staged : disk.entries [stagingOf serverId suffix] = some (.directory contents touched))
    (without : ¬ (Done faults [.statBefore] ∧ before.entries [serverId] ≠ none)) :
    Told serverId before (ran faults (exchange serverId suffix files) disk) ↔
      ExchangeTold faults before [serverId] contents := by
  have found : (answer (faults [.statBefore]) (.stat [serverId]) disk).1.isOk = false := by
    rw [answer_stat_ok, root]
    simpa using without
  have step : ran faults (exchange serverId suffix files) disk =
      match (answer (faults [.exchange]) (.rename [stagingOf serverId suffix] [serverId]) disk) with
      | (.ok _, after) => (.ok ⟨files, .swapped⟩, after)
      | (.error error, after) => ran faults (notExchanged serverId suffix error true) after := by
    unfold exchange
    rw [ran_bind, ran_succeeded, ran_stat, answer_stat_disk, found]
    simp only [Code.whenever_false]
    rw [ran_bind, ran_attempt, ran_bind, ran_pure]
    simp only [ran_rename]
    rcases answer (faults [.exchange]) (.rename [stagingOf serverId suffix] [serverId]) disk
      with ⟨error | reply, after⟩
    · simp only [Bool.false_eq_true, if_false]
      rw [ran_bind, ran_pure]
    · rfl
  rw [step, ExchangeTold, if_neg without]
  by_cases free : Free before [serverId]
  · obtain ⟨done, answered⟩ | ⟨notDone, effect, answered⟩ | ⟨notDone, noEffect, answered⟩ :=
      rename_cases faults [.exchange] [stagingOf serverId suffix] [serverId] _ _ staged
        ((free_congr root).mpr free)
    · rw [answered, if_pos ⟨free, Or.inl done⟩]
      exact iff_of_true (told_ok _) (Or.inl done)
    · rw [answered, if_pos ⟨free, effect⟩]
      simp only [notExchanged_told]
      simp [notDone, Entry.files, eq_comm]
    · rw [answered, if_neg fun both => noEffect both.2]
      simp only [notExchanged_told, tree_congr root, iff_self, and_true]
  · obtain ⟨error, -, answered⟩ := answer_rename_onto (faults [.exchange])
      [stagingOf serverId suffix] [serverId] disk (fun open_ => free ((free_congr root).mp open_))
      (by simp [staged])
    rw [answered, if_neg fun both => free both.1]
    simp only [notExchanged_told, tree_congr root, iff_self, and_true]

/-- What is done when an exchange failed after a world was found. -/
def putBack (serverId suffix : String) (error : Failure) : AgentCode RestoreResult := do
  let restored ← (rename .putBack [asideOf serverId suffix] [serverId]).succeeded
  notExchanged serverId suffix error restored

/-- Putting the old world back, from where it was set aside. -/
theorem putBack_told (contents : Tree) (touched : Nat) (error : Failure)
    (had : before.entries [serverId] ≠ none)
    (aside : disk.entries [asideOf serverId suffix] = before.entries [serverId])
    (place : disk.entries [serverId] = none ∨
      disk.entries [serverId] = some (.directory contents touched)) :
    Told serverId before (ran faults (putBack serverId suffix error) disk) ↔
      Done faults [.clearStaging] ∧ BackTold faults before [serverId] (disk.tree [serverId]) := by
  unfold putBack
  rw [ran_bind, ran_succeeded, ran_rename]
  simp only [notExchanged_told]
  obtain ⟨entry, old⟩ := Option.ne_none_iff_exists'.mp had
  rw [old] at aside
  have blocked : ¬ Free disk [serverId] ↔
      disk.tree [serverId] ≠ none ∧ disk.tree [serverId] ≠ some [] := by
    rcases place with here | here
    · simp [Free, Disk.tree, here]
    · simp [Free, Disk.tree, here, Entry.replaceable, Entry.files]
  by_cases free : Free disk [serverId]
  · rw [BackTold, if_neg fun both => blocked.mpr both free]
    obtain ⟨done, answered⟩ | ⟨notDone, effect, answered⟩ | ⟨notDone, noEffect, answered⟩ :=
      rename_cases faults [.putBack] [asideOf serverId suffix] [serverId] _ _ aside free
    · rw [answered]
      simpa [Except.isOk, Except.toBool, Disk.tree, old] using fun _ => Or.inl done
    · rw [answered]
      simp [notDone, effect, Except.isOk, Except.toBool, Disk.tree, old]
    · rw [answered]
      simp [notDone, noEffect, Except.isOk, Except.toBool, eq_comm]
  · obtain ⟨refused, -, answered⟩ := answer_rename_onto (faults [.putBack])
      [asideOf serverId suffix] [serverId] disk free (by simp [aside])
    rw [answered, BackTold, if_pos (blocked.mp free)]
    simp [Except.isOk, Except.toBool, eq_comm]

theorem exchange_run_with
    (found : (answer (faults [.statBefore]) (.stat [serverId]) disk).1.isOk = true) :
    Told serverId before (ran faults (exchange serverId suffix files) disk) ↔
      Told serverId before (match ran faults (do
        rename .setAside [serverId] [asideOf serverId suffix]
        rename .exchange [stagingOf serverId suffix] [serverId]) disk with
      | (.ok _, after) => (.ok ⟨files, .swapped⟩, after)
      | (.error error, after) => ran faults (putBack serverId suffix error) after) := by
  unfold exchange
  rw [ran_bind, ran_succeeded, ran_stat, answer_stat_disk, found]
  simp only [Code.whenever_true, if_true]
  rw [ran_bind, ran_attempt]
  rcases ran faults (do
      rename .setAside [serverId] [asideOf serverId suffix]
      rename .exchange [stagingOf serverId suffix] [serverId]) disk with ⟨error | reply, after⟩
  · rfl
  · simp only [ran_bind]
    rw [ran_attempt]
    exact iff_of_true (told_ok _) (told_ok _)

/-- The exchange where the old world is set aside first. -/
theorem exchange_told_with
    (root : disk.entries [serverId] = before.entries [serverId])
    (staged : disk.entries [stagingOf serverId suffix] = some (.directory contents touched))
    (unused : disk.entries [asideOf serverId suffix] = none)
    (with_ : Done faults [.statBefore] ∧ before.entries [serverId] ≠ none) :
    Told serverId before (ran faults (exchange serverId suffix files) disk) ↔
      ExchangeTold faults before [serverId] contents := by
  have found : (answer (faults [.statBefore]) (.stat [serverId]) disk).1.isOk = true := by
    rw [answer_stat_ok, root]
    simpa using with_
  have rootAside := root_ne_aside serverId suffix
  have rootStaging := root_ne_staging serverId suffix
  have stagingAside := (aside_ne_staging serverId suffix).symm
  obtain ⟨entry, old⟩ := Option.ne_none_iff_exists'.mp with_.2
  rw [exchange_run_with files found, ExchangeTold, if_pos with_, ran_bind, ran_rename]
  have moved : ∀ error, Told serverId before (ran faults (putBack serverId suffix error)
      ((disk.put [serverId] none).put [asideOf serverId suffix] (some entry))) ↔
        Done faults [.clearStaging] ∧ BackTold faults before [serverId] none := by
    intro error
    rw [putBack_told [] 0 error with_.2 (by simp [old])
      (by simp [rootAside])]
    simp [rootAside]
  obtain ⟨asideDone, answered⟩ | ⟨notDone, effect, answered⟩ | ⟨notDone, noEffect, answered⟩ :=
    rename_cases faults [.setAside] [serverId] [asideOf serverId suffix] _ _ (root.trans old)
      (by simp [Free, unused])
  · have asideEffect : TakesEffect faults [.setAside] := Or.inl asideDone
    rw [answered]
    simp only [ran_rename]
    obtain ⟨done, exchanged⟩ | ⟨notDone, effect, exchanged⟩ | ⟨notDone, noEffect, exchanged⟩ :=
      rename_cases faults [.exchange] [stagingOf serverId suffix] [serverId]
        (.directory contents touched)
        ((disk.put [serverId] none).put [asideOf serverId suffix] (some entry))
        (by simp [stagingAside, rootStaging.symm, staged]) (by simp [Free, rootAside])
    · rw [exchanged, if_pos ⟨asideDone, done⟩]
      exact iff_of_true (told_ok _) trivial
    · rw [exchanged]
      simp only
      rw [putBack_told contents touched _ with_.2
        (by simp [rootAside.symm, stagingAside.symm, old]) (by simp)]
      rw [if_neg fun both => notDone both.2, if_pos ⟨asideDone, effect⟩]
      simp [asideEffect, Entry.files]
    · rw [exchanged]
      simp only
      rw [moved, if_neg fun both => notDone both.2, if_neg fun both => noEffect both.2]
      simp [asideEffect]
  · rw [answered]
    simp only
    rw [moved]
    simp [notDone, effect]
  · rw [answered]
    simp only
    obtain ⟨refused, -, back⟩ := answer_rename_missing (faults [.putBack])
      [asideOf serverId suffix] [serverId] disk unused
    unfold putBack
    rw [ran_bind, ran_succeeded, ran_rename, back]
    simp only [notExchanged_told, tree_congr root]
    simp [notDone, noEffect, Except.isOk, Except.toBool]

theorem exchange_told
    (root : disk.entries [serverId] = before.entries [serverId])
    (staged : disk.entries [stagingOf serverId suffix] = some (.directory contents touched))
    (unused : disk.entries [asideOf serverId suffix] = none) :
    Told serverId before (ran faults (exchange serverId suffix files) disk) ↔
      ExchangeTold faults before [serverId] contents := by
  by_cases had : Done faults [.statBefore] ∧ before.entries [serverId] ≠ none
  · exact exchange_told_with files root staged unused had
  · exact exchange_told_without files root staged had

end Exchange

/-! ### The two modes -/

/-- The restore beside the world tells the truth. -/
def SwappedTold (faults : Faults) (before : Disk) (root : Path) (contents : Tree) : Prop :=
  if Done faults [.makeStaging] ∧ Done faults [.unpack] then
    ExchangeTold faults before root contents
  else Done faults [.dropStaging]

/-- The restore in place tells the truth: its removal and the new directory succeed, and an
unpacking that fails leaves something that differs from what was there. -/
def InPlaceTold (faults : Faults) (before : Disk) (root : Path) (contents : Tree) : Prop :=
  Done faults [.emptyWorld] ∧ Done faults [.makeWorld] ∧
    (Done faults [.unpack] ∨
      before.tree root ≠ some (leftBehind (faults [.unpack]) contents))

section Modes

variable {faults : Faults} {serverId suffix : String} {before : Disk} {target : Path}
  {archive : Archive} {touched : Nat}

theorem dropStaging_told {disk : Disk} (message : String)
    (same : disk.entries [serverId] = before.entries [serverId]) :
    Told serverId before (ran faults (do
      rm .dropStaging [stagingOf serverId suffix]
      (throw (untouched message) : AgentCode RestoreResult)) disk) ↔
      Done faults [.dropStaging] := by
  have apart := root_ne_staging serverId suffix
  rw [ran_bind, ran_rm]
  obtain ⟨done, answered⟩ | ⟨notDone, after, kept, answered⟩ :=
    answer_remove (faults [.dropStaging]) [stagingOf serverId suffix] disk
  · rw [answered]
    simp only [ran_throw, told_error]
    rw [truthful_untouched rfl, Disk.tree_put_other _ _ apart, tree_congr same]
    exact iff_of_true rfl done
  · rw [answered]
    simp only [told_error]
    exact iff_of_false (not_truthful_silent rfl) notDone

theorem restoreSwapped_told
    (there : before.entries target = some (.file archive touched))
    (stagingUnused : before.entries [stagingOf serverId suffix] = none)
    (asideUnused : before.entries [asideOf serverId suffix] = none) :
    Told serverId before (ran faults (restoreSwapped serverId suffix target) before) ↔
      SwappedTold faults before [serverId] archive.contents := by
  have rootStaging := root_ne_staging serverId suffix
  have asideStaging := aside_ne_staging serverId suffix
  have targetStaging : target ≠ [stagingOf serverId suffix] := by
    intro equal
    rw [equal, stagingUnused] at there
    cases there
  unfold restoreSwapped SwappedTold
  rw [ran_bind, ran_attempt, ran_bind, ran_mkdir]
  obtain ⟨made, answered⟩ | ⟨notMade, after, kept, answered⟩ :=
    mkdir_cases faults [.makeStaging] _ _ stagingUnused
  · rw [answered]
    simp only [ran_extractInto]
    obtain ⟨after, kept, ⟨at_, staged⟩, ⟨done, unpacked⟩ | ⟨notDone, unpacked⟩⟩ :=
      extract_cases faults [.unpack] [stagingOf serverId suffix] target
        (before.put [stagingOf serverId suffix] (some (.directory [] before.clock)))
        (Disk.put_same _ _ _) ((Disk.put_other _ _ targetStaging).trans there)
    · rw [unpacked, if_pos ⟨made, done⟩]
      simp only
      have whole : leftBehind (faults [.unpack]) archive.contents = archive.contents := by
        simp [leftBehind, done]
      rw [whole] at staged
      refine exchange_told _ ?_ staged ?_
      · rw [kept _ rootStaging, Disk.put_other _ _ rootStaging]
      · rw [kept _ asideStaging, Disk.put_other _ _ asideStaging, asideUnused]
    · rw [unpacked, if_neg fun both => notDone both.2]
      simp only
      refine dropStaging_told _ ?_
      rw [kept _ rootStaging, Disk.put_other _ _ rootStaging]
  · rw [answered, if_neg fun both => notMade both.1]
    simp only
    exact dropStaging_told _ (kept _ rootStaging)

theorem restoreInPlace_told
    (there : before.entries target = some (.file archive touched))
    (apart : target ≠ [serverId]) :
    Told serverId before (ran faults (restoreInPlace serverId target) before) ↔
      InPlaceTold faults before [serverId] archive.contents := by
  unfold restoreInPlace InPlaceTold
  rw [ran_bind, ran_rm]
  obtain ⟨emptied, answered⟩ | ⟨notEmptied, after, -, answered⟩ :=
    answer_remove (faults [.emptyWorld]) [serverId] before
  · rw [answered]
    simp only
    rw [ran_bind, ran_mkdir]
    obtain ⟨made, answered⟩ | ⟨notMade, after, -, answered⟩ :=
      mkdir_cases faults [.makeWorld] [serverId] (before.put [serverId] none) (by simp)
    · rw [answered]
      simp only
      rw [ran_bind, ran_attempt, ran_extractInto]
      obtain ⟨after, kept, ⟨at_, placed⟩, ⟨done, unpacked⟩ | ⟨notDone, unpacked⟩⟩ :=
        extract_cases faults [.unpack] [serverId] target
          ((before.put [serverId] none).put [serverId]
            (some (.directory [] (before.put [serverId] none).clock)))
          (Disk.put_same _ _ _)
          ((Disk.put_other _ _ apart).trans ((Disk.put_other _ _ apart).trans there))
      · rw [unpacked]
        exact iff_of_true (told_ok _) ⟨emptied, made, .inl done⟩
      · rw [unpacked]
        simp only [ran_throw, told_error]
        rw [truthful_incomplete rfl]
        have left : after.tree [serverId] =
            some (leftBehind (faults [.unpack]) archive.contents) := by
          simp [Disk.tree, placed, Entry.files]
        rw [left]
        constructor
        · intro differs
          exact ⟨emptied, made, .inr fun equal => differs equal.symm⟩
        · rintro ⟨-, -, done | differs⟩
          · exact absurd done notDone
          · exact fun equal => differs equal.symm
    · rw [answered]
      simp only [told_error]
      exact iff_of_false (not_truthful_silent rfl) fun told => notMade told.2.1
  · rw [answered]
    simp only [told_error]
    exact iff_of_false (not_truthful_silent rfl) fun told => notEmptied told.1

end Modes

/-! ### The checks in front -/

/-- The checksum a restore compares with: none, or one that is not empty. -/
def RestoreRequest.expected (request : RestoreRequest) : Option String :=
  request.expectedChecksum.filter (· ≠ "")

/-- The path of the archive a restore is asked for. -/
def RestoreRequest.target (request : RestoreRequest) : Path :=
  [".backups", request.serverId, request.artifact]

/-- What the size of the current world comes to: the files of it that could be read, and
nothing when it could not be looked through. -/
def countedWorld (faults : Faults) (before : Disk) (root : Path) : Nat :=
  if Done faults [.worldSize] then
    ((before.entries root).map (Entry.bytes (faults [.worldSize]).unread)).getD 0
  else 0

/-- Once the archive has passed, the restore looks at the room there is, and then goes ahead
in the mode it was asked for. -/
def RoomTold (faults : Faults) (request : RestoreRequest) (before : Disk) (archive : Archive) :
    Prop :=
  let root : Path := [request.serverId]
  let present := Done faults [.statWorld] ∧ before.entries root ≠ none
  let world := if present then countedWorld faults before root else 0
  let needed := max archive.tail archive.sizeBytes
  let floor := floorFor request.floorGiven before.total
  if request.inPlace then
    needed + min floor (512 * MIB) ≤ before.free + world →
      InPlaceTold faults before root archive.contents
  else needed + floor ≤ before.free → SwappedTold faults before root archive.contents

/-- A restore tells the truth about the world when it fails, step by step: its names are
accepted; once the archive was seen, reading it never fails, and when it is the right one the
looks at it and at the disk never fail; and the mode that is then entered tells the truth. -/
def TellsTruth (faults : Faults) (request : RestoreRequest) (before : Disk) : Prop :=
  (validArtifact request.artifact = true ∧ validServerId request.serverId = true) ∧
    (Done faults [.statArchive] →
      match before.entries request.target with
      | none => True
      | some (.directory _ _) => False
      | some (.file archive _) =>
        (request.expected ≠ none →
          Done faults [.checksum, .statArchive] ∧ Done faults [.checksum, .readArchive]) ∧
        (request.expected = none ∨ request.expected = some archive.checksum →
          Done faults [.openArchive] ∧ Done faults [.readTail] ∧ Done faults [.closeArchive] ∧
            Done faults [.space] ∧ RoomTold faults request before archive))

section Checks

variable {faults : Faults} {request : RestoreRequest} {before : Disk} {archive : Archive}
  {touched : Nat}

theorem ran_rootFor (valid : validServerId request.serverId = true) (disk : Disk) :
    ran faults (rootFor request.serverId) disk = (.ok [request.serverId], disk) := by
  unfold rootFor
  rw [if_pos valid, ran_pure]

theorem ran_artifactPath (name : validArtifact request.artifact = true)
    (valid : validServerId request.serverId = true) (disk : Disk) :
    ran faults (artifactPath request.serverId request.artifact) disk =
      (.ok request.target, disk) := by
  unfold artifactPath backupRoot
  rw [if_pos name, ran_bind, ran_bind, ran_rootFor valid]
  rfl

/-- The digest, once the archive was found. -/
theorem ran_verifyArchive (faults : Faults) (name : validArtifact request.artifact = true)
    (valid : validServerId request.serverId = true)
    (there : before.entries request.target = some (.file archive touched)) :
    (Done faults [.statArchive] ∧ Done faults [.readArchive] ∧
      ran faults (verifyArchive request.serverId request.artifact) before =
        (.ok archive.checksum, before)) ∨
      (¬ (Done faults [.statArchive] ∧ Done faults [.readArchive]) ∧
        ∃ error : Failure, error.stage = none ∧
          ran faults (verifyArchive request.serverId request.artifact) before =
            (.error error, before)) := by
  unfold verifyArchive
  rw [ran_bind, ran_artifactPath name valid]
  simp only
  rw [ran_bind, ran_attempt, ran_stat]
  obtain ⟨seen, answered⟩ | ⟨notSeen, answered⟩ :=
    read_cases faults [.statArchive] (.stat request.target) before archive.sizeBytes
      (by simp [perform, there]; rfl) rfl
  · rw [answered]
    simp only [ran_digest]
    obtain ⟨read, digested⟩ | ⟨notRead, digested⟩ :=
      read_cases faults [.readArchive] (.digest request.target) before archive.checksum
        (by simp [perform, there]) rfl
    · exact .inl ⟨seen, read, digested⟩
    · exact .inr ⟨fun both => notRead both.2, _, Outcome.error_stage _, digested⟩
  · rw [answered]
    exact .inr ⟨fun both => notSeen both.1, _, rfl, rfl⟩

/-- Where the tail cannot be read, the uncompressed size is not told. -/
theorem ran_uncompressedSizeOf_failed (compressed : Nat) {entry : Entry} {raised : Failure}
    (there : before.entries request.target = some entry) (silent : raised.stage = none)
    (tailed : answer (faults [.readTail]) (.readTail request.target) before =
      (.error raised, before)) :
    ∃ error : Failure, error.stage = none ∧
      ran faults (uncompressedSizeOf request.target compressed) before =
        (.error error, before) := by
  unfold uncompressedSizeOf Code.finally_
  rw [ran_bind, ran_openFile]
  obtain ⟨opened, answered⟩ | ⟨notOpened, answered⟩ :=
    read_cases faults [.openArchive] (.open_ request.target) before ()
      (by simp [perform, Disk.present, there]) rfl
  · rw [answered]
    simp only
    rw [ran_bind, ran_attempt, ran_bind, ran_readTail, tailed]
    simp only
    rw [ran_bind, ran_closeFile]
    obtain ⟨closed, finished⟩ | ⟨notClosed, finished⟩ :=
      read_cases faults [.closeArchive] (.close request.target) before () rfl rfl
    · rw [finished]
      exact ⟨_, silent, rfl⟩
    · rw [finished]
      exact ⟨_, Outcome.error_stage _, rfl⟩
  · rw [answered]
    exact ⟨_, Outcome.error_stage _, rfl⟩

/-- The uncompressed size, once the archive was found. -/
theorem ran_uncompressedSizeOf (faults : Faults) (compressed : Nat)
    (there : before.entries request.target = some (.file archive touched)) :
    (Done faults [.openArchive] ∧ Done faults [.readTail] ∧ Done faults [.closeArchive] ∧
      ran faults (uncompressedSizeOf request.target compressed) before =
        (.ok (max archive.tail compressed), before)) ∨
      (¬ (Done faults [.openArchive] ∧ Done faults [.readTail] ∧ Done faults [.closeArchive]) ∧
        ∃ error : Failure, error.stage = none ∧
          ran faults (uncompressedSizeOf request.target compressed) before =
            (.error error, before)) := by
  obtain ⟨read, tailed⟩ | ⟨notRead, tailed⟩ :=
    read_cases faults [.readTail] (.readTail request.target) before archive.tail
      (by simp [perform, there]) rfl
  · unfold uncompressedSizeOf Code.finally_
    rw [ran_bind, ran_openFile]
    obtain ⟨opened, answered⟩ | ⟨notOpened, answered⟩ :=
      read_cases faults [.openArchive] (.open_ request.target) before ()
        (by simp [perform, Disk.present, there]) rfl
    · rw [answered]
      simp only
      rw [ran_bind, ran_attempt, ran_bind, ran_readTail, tailed]
      simp only [ran_pure]
      rw [ran_bind, ran_closeFile]
      obtain ⟨closed, finished⟩ | ⟨notClosed, finished⟩ :=
        read_cases faults [.closeArchive] (.close request.target) before () rfl rfl
      · rw [finished]
        exact .inl ⟨opened, read, closed, rfl⟩
      · rw [finished]
        exact .inr ⟨fun all => notClosed all.2.2, _, Outcome.error_stage _, rfl⟩
    · rw [answered]
      exact .inr ⟨fun all => notOpened all.1, _, Outcome.error_stage _, rfl⟩
  · exact .inr ⟨fun all => notRead all.2.1,
      ran_uncompressedSizeOf_failed compressed there (Outcome.error_stage _) tailed⟩

/-- The size of the current world, when there is one. -/
theorem ran_worldSize (faults : Faults) (root : Path) (present : Bool)
    (seen : present = true → before.entries root ≠ none) :
    ran faults (worldSize root present) before =
      (.ok (if present = true then countedWorld faults before root else 0), before) := by
  unfold worldSize
  cases present with
  | false => rfl
  | true =>
    obtain ⟨entry, there⟩ := Option.ne_none_iff_exists'.mp (seen rfl)
    simp only [if_true, directorySize, countedWorld]
    rw [ran_bind, ran_attempt, ran_request]
    obtain ⟨done, answered⟩ | ⟨notDone, answered⟩ :=
      read_cases faults [.worldSize] (.directorySize root) before
        (entry.bytes (faults [.worldSize]).unread) (by simp [perform, there]) rfl
    · rw [answered, if_pos done, there]
      rfl
    · rw [answered, if_neg notDone]
      rfl

theorem told_untouched (message : String) (disk : Disk) (same : disk.tree [request.serverId] =
    before.tree [request.serverId]) :
    Told request.serverId before
      ((.error (untouched message), disk) : Except Failure RestoreResult × Disk) := by
  rw [told_error, truthful_untouched rfl]
  exact same

theorem not_told_silent {error : Failure} (silent : error.stage = none) (disk : Disk) :
    ¬ Told request.serverId before
      ((.error error, disk) : Except Failure RestoreResult × Disk) := by
  rw [told_error]
  exact not_truthful_silent silent

/-- The look at the room, and the mode that is entered. -/
theorem roomTold
    (there : before.entries request.target = some (.file archive touched))
    (stagingUnused : before.entries [stagingOf request.serverId request.suffix] = none)
    (asideUnused : before.entries [asideOf request.serverId request.suffix] = none) :
    let present := decide (Done faults [.statWorld] ∧ before.entries [request.serverId] ≠ none)
    let needed := max archive.tail archive.sizeBytes
    let floor := floorFor request.floorGiven before.total
    Told request.serverId before (ran faults
      (if request.inPlace then do
        let world ← worldSize [request.serverId] present
        if before.free + world < needed + min floor (512 * MIB) then
          throw (untouched (noRoom request present needed floor before.free world))
        else restoreInPlace request.serverId request.target
      else if before.free < needed + floor then do
        let world ← worldSize [request.serverId] present
        throw (untouched (noRoom request present needed floor before.free world))
      else restoreSwapped request.serverId request.suffix request.target) before) ↔
      RoomTold faults request before archive := by
  intro present needed floor
  have seen : present = true → before.entries [request.serverId] ≠ none :=
    fun found => (of_decide_eq_true found).2
  have present_iff : present = true ↔
      Done faults [.statWorld] ∧ before.entries [request.serverId] ≠ none := decide_eq_true_iff
  have targetApart : request.target ≠ [request.serverId] := by simp [RestoreRequest.target]
  have sizes := ran_worldSize faults [request.serverId] present seen
  simp only [RoomTold, ← present_iff]
  by_cases inPlace : request.inPlace = true
  · rw [if_pos inPlace, if_pos inPlace, ran_bind, sizes]
    simp only [ran_ite]
    by_cases short : before.free +
        (if present = true then countedWorld faults before [request.serverId] else 0) <
          needed + min floor (512 * MIB)
    · rw [if_pos short]
      exact iff_of_true (told_untouched _ _ rfl)
        fun enough => absurd short (Nat.not_lt.mpr enough)
    · rw [if_neg short, restoreInPlace_told there targetApart]
      exact ⟨fun told _ => told, fun all => all (Nat.not_lt.mp short)⟩
  · rw [if_neg inPlace, if_neg inPlace]
    by_cases short : before.free < needed + floor
    · rw [if_pos short, ran_bind, sizes]
      exact iff_of_true (told_untouched _ _ rfl)
        fun enough => absurd short (Nat.not_lt.mpr enough)
    · rw [if_neg short, restoreSwapped_told there stagingUnused asideUnused]
      exact ⟨fun told _ => told, fun all => all (Nat.not_lt.mp short)⟩

/-- The restore of an archive that passed the checks. -/
theorem restoreChecked_told
    (there : before.entries request.target = some (.file archive touched))
    (stagingUnused : before.entries [stagingOf request.serverId request.suffix] = none)
    (asideUnused : before.entries [asideOf request.serverId request.suffix] = none) :
    Told request.serverId before (ran faults
      (restoreChecked request request.target [request.serverId] archive.sizeBytes) before) ↔
      Done faults [.openArchive] ∧ Done faults [.readTail] ∧ Done faults [.closeArchive] ∧
        Done faults [.space] ∧ RoomTold faults request before archive := by
  unfold restoreChecked
  rw [ran_bind]
  obtain ⟨opened, read, closed, sized⟩ | ⟨unsized, error, silent, sized⟩ :=
    ran_uncompressedSizeOf faults archive.sizeBytes there
  · rw [sized]
    simp only
    rw [ran_bind, ran_succeeded, ran_stat, answer_stat_disk, answer_stat_ok]
    simp only
    rw [ran_bind, ran_statfs]
    obtain ⟨looked, spaced⟩ | ⟨notLooked, spaced⟩ :=
      read_cases faults [.space] .statfs before ⟨before.free, before.total⟩ rfl rfl
    · rw [spaced]
      simp only
      have checked : Done faults [.openArchive] ∧ Done faults [.readTail] ∧
          Done faults [.closeArchive] ∧ Done faults [.space] ∧ RoomTold faults request before archive
          ↔ RoomTold faults request before archive :=
        ⟨fun all => all.2.2.2.2, fun told => ⟨opened, read, closed, looked, told⟩⟩
      rw [checked]
      exact roomTold there stagingUnused asideUnused
    · rw [spaced]
      exact iff_of_false (not_told_silent (Outcome.error_stage _) _)
        fun all => notLooked all.2.2.2.1
  · rw [sized]
    exact iff_of_false (not_told_silent silent _)
      fun all => unsized ⟨all.1, all.2.1, all.2.2.1⟩

/-- The checks of the archive: it is not there, or it cannot be read, or it is another one,
or it passes. -/
theorem checkArchive_cases (faults : Faults) (name : validArtifact request.artifact = true)
    (valid : validServerId request.serverId = true)
    (there : before.entries request.target = some (.file archive touched)) :
    (¬ Done faults [.statArchive] ∧ ∃ message,
      ran faults (checkArchive request request.target) before =
        (.error (untouched message), before)) ∨
    (Done faults [.statArchive] ∧
      ¬ (request.expected ≠ none →
        Done faults [.checksum, .statArchive] ∧ Done faults [.checksum, .readArchive]) ∧
      ∃ error : Failure, error.stage = none ∧
        ran faults (checkArchive request request.target) before = (.error error, before)) ∨
    (Done faults [.statArchive] ∧
      (request.expected ≠ none →
        Done faults [.checksum, .statArchive] ∧ Done faults [.checksum, .readArchive]) ∧
      ¬ (request.expected = none ∨ request.expected = some archive.checksum) ∧
      ∃ message, ran faults (checkArchive request request.target) before =
        (.error (untouched message), before)) ∨
    (Done faults [.statArchive] ∧
      (request.expected ≠ none →
        Done faults [.checksum, .statArchive] ∧ Done faults [.checksum, .readArchive]) ∧
      (request.expected = none ∨ request.expected = some archive.checksum) ∧
      ran faults (checkArchive request request.target) before =
        (.ok archive.sizeBytes, before)) := by
  unfold checkArchive
  rw [ran_bind, ran_attempt, ran_stat]
  obtain ⟨seen, answered⟩ | ⟨notSeen, answered⟩ :=
    read_cases faults [.statArchive] (.stat request.target) before archive.sizeBytes
      (by simp [perform, there, Entry.size]) rfl
  · rw [answered]
    refine .inr ?_
    simp only
    cases expected : request.expected with
    | none =>
      have unset : request.expectedChecksum.filter (· ≠ "") = none := expected
      rw [unset]
      exact .inr (.inr ⟨seen, fun some_ => absurd rfl some_, .inl rfl, rfl⟩)
    | some checksum =>
      have set_ : request.expectedChecksum.filter (· ≠ "") = some checksum := expected
      rw [set_]
      simp only
      rw [ran_bind, ran_step]
      obtain ⟨stated, read, verified⟩ | ⟨unread, error, silent, verified⟩ :=
        ran_verifyArchive (fun site => faults (.checksum :: site)) name valid there
      · rw [verified]
        simp only [ran_ite, beq_iff_eq]
        by_cases matches_ : archive.checksum = checksum
        · rw [if_pos matches_]
          exact .inr (.inr ⟨seen, fun _ => ⟨stated, read⟩, .inr (by rw [matches_]), rfl⟩)
        · rw [if_neg matches_]
          refine .inr (.inl ⟨seen, fun _ => ⟨stated, read⟩, ?_, _, rfl⟩)
          rintro (none_ | same)
          · cases none_
          · exact matches_ (Option.some.inj same).symm
      · rw [verified]
        exact .inl ⟨seen, fun all => unread (all (by simp)), error, silent, rfl⟩
  · rw [answered]
    exact .inl ⟨notSeen, _, rfl⟩

/-- What is asked for as an archive and is a directory fails without a word, once it was seen. -/
theorem restoreArchive_directory (name : validArtifact request.artifact = true)
    (valid : validServerId request.serverId = true) {files : Tree}
    (there : before.entries request.target = some (.directory files touched)) :
    Told request.serverId before (ran faults (restoreArchive request) before) ↔
      ¬ Done faults [.statArchive] := by
  unfold restoreArchive checkArchive
  rw [ran_bind, ran_artifactPath name valid]
  simp only
  rw [ran_bind, ran_rootFor valid]
  simp only
  rw [ran_bind, ran_bind, ran_attempt, ran_stat]
  obtain ⟨seen, answered⟩ | ⟨notSeen, answered⟩ :=
    read_cases faults [.statArchive] (.stat request.target) before 0
      (by simp [perform, there, Entry.size]) rfl
  · rw [answered]
    refine iff_of_false ?_ fun unseen => unseen seen
    simp only
    cases request.expectedChecksum.filter (· ≠ "") with
    | none =>
      simp only [ran_pure]
      unfold restoreChecked
      rw [ran_bind]
      obtain ⟨raised, told, tailed⟩ :=
        refused_cases faults [.readTail] (.readTail request.target) before
          (by simp [perform, there]) missing_stage rfl
      obtain ⟨error, silent, failed⟩ := ran_uncompressedSizeOf_failed 0 there told tailed
      rw [failed]
      exact not_told_silent silent _
    | some checksum =>
      simp only
      rw [ran_bind, ran_step]
      unfold verifyArchive
      rw [ran_bind, ran_artifactPath name valid]
      simp only
      rw [ran_bind, ran_attempt, ran_stat]
      obtain ⟨stated, second⟩ | ⟨notStated, second⟩ :=
        read_cases (fun site => faults (.checksum :: site)) [.statArchive] (.stat request.target)
          before 0 (by simp [perform, there, Entry.size]) rfl
      · rw [second]
        simp only [ran_digest]
        obtain ⟨raised, silent, digested⟩ :=
          refused_cases (fun site => faults (.checksum :: site)) [.readArchive]
            (.digest request.target) before (by simp [perform, there]) missing_stage rfl
        rw [digested]
        exact not_told_silent silent _
      · rw [second]
        exact not_told_silent rfl _
  · rw [answered]
    exact iff_of_true (told_untouched _ _ rfl) notSeen

end Checks

/-! ### The whole restore -/

/-- A restore that fails tells the truth about the world exactly when its steps fail as
`TellsTruth` allows. The suffix of its directories is one that nothing on the disk has yet. -/
theorem restore_tells_truth_iff (faults : Faults) (request : RestoreRequest) (before : Disk)
    (stagingUnused : before.entries [stagingOf request.serverId request.suffix] = none)
    (asideUnused : before.entries [asideOf request.serverId request.suffix] = none) :
    Told request.serverId before (ran faults (restoreArchive request) before) ↔
      TellsTruth faults request before := by
  by_cases names : validArtifact request.artifact = true ∧ validServerId request.serverId = true
  · obtain ⟨name, valid⟩ := names
    unfold TellsTruth
    rw [and_iff_right ⟨name, valid⟩]
    cases there : before.entries request.target with
    | none =>
      refine iff_of_true ?_ fun _ => trivial
      obtain ⟨raised, -, unseen⟩ := refused_cases faults [.statArchive] (.stat request.target)
        before (by simp [perform, there]) missing_stage rfl
      unfold restoreArchive checkArchive
      rw [ran_bind, ran_artifactPath name valid]
      simp only
      rw [ran_bind, ran_rootFor valid]
      simp only
      rw [ran_bind, ran_bind, ran_attempt, ran_stat, unseen]
      exact told_untouched _ _ rfl
    | some entry =>
      cases entry with
      | directory files touched => exact restoreArchive_directory name valid there
      | file archive touched =>
        unfold restoreArchive
        rw [ran_bind, ran_artifactPath name valid]
        simp only
        rw [ran_bind, ran_rootFor valid]
        simp only
        rw [ran_bind]
        obtain ⟨unseen, message, checked⟩ | ⟨seen, unread, error, silent, checked⟩ |
            ⟨seen, read, differs, message, checked⟩ | ⟨seen, read, same, checked⟩ :=
          checkArchive_cases faults name valid there
        · rw [checked]
          exact iff_of_true (told_untouched _ _ rfl) fun seen => absurd seen unseen
        · rw [checked]
          exact iff_of_false (not_told_silent silent _) fun all => unread (all seen).1
        · rw [checked]
          exact iff_of_true (told_untouched _ _ rfl)
            fun _ => ⟨read, fun same => absurd same differs⟩
        · rw [checked]
          simp only
          rw [restoreChecked_told there stagingUnused asideUnused]
          exact ⟨fun told _ => ⟨read, fun _ => told⟩, fun all => (all seen).2 same⟩
  · refine iff_of_false ?_ fun all => names all.1
    unfold restoreArchive artifactPath backupRoot rootFor
    by_cases name : validArtifact request.artifact = true
    · have invalid : ¬ validServerId request.serverId = true := fun valid => names ⟨name, valid⟩
      rw [ran_bind, if_pos name, ran_bind, ran_bind, if_neg invalid]
      exact not_told_silent rfl _
    · rw [ran_bind, if_neg name]
      exact not_told_silent rfl _

/-- A node with one world and one archive of it, on a disk with room for both. -/
def plainDisk : Disk where
  entries path :=
    if path = ["srv"] then some (.directory [("level.dat", 1)] 10)
    else if path = [".backups", "srv", "srv-manual.tar.gz"] then
      some (.file ⟨20, "sha256:2", 40, [("level.dat", 2)]⟩ 10)
    else none
  free := 100 * GIB
  total := 200 * GIB
  clock := 20

/-- A restore of that archive beside the world. -/
def plainRestore : RestoreRequest where
  serverId := "srv"
  artifact := "srv-manual.tar.gz"
  expectedChecksum := some "sha256:2"
  inPlace := false
  suffix := "0a1b2c3d4e5f"
  floorGiven := none

/-- The rename of the world out of the way is refused, and nothing else fails. -/
def setAsideRefused : Faults := fun site =>
  if site = [.setAside] then { fault := .failed, code := "EPERM", message := "not permitted" }
  else {}

theorem restore_tells_truth_iff_plain :
    Told "srv" plainDisk (ran (fun _ => {}) (restoreArchive plainRestore) plainDisk) ↔
      TellsTruth (fun _ => {}) plainRestore plainDisk :=
  restore_tells_truth_iff (fun _ => {}) plainRestore plainDisk (by decide) (by decide)

/-- A world that could not be moved out of the way is where it was, and is said to be
incomplete. -/
theorem refused_setAside_not_told :
    (ran setAsideRefused (restoreArchive plainRestore) plainDisk).2.tree ["srv"] =
        plainDisk.tree ["srv"] ∧
      ¬ Told "srv" plainDisk (ran setAsideRefused (restoreArchive plainRestore) plainDisk) := by
  have same : (ran setAsideRefused (restoreArchive plainRestore) plainDisk).2.tree ["srv"] =
      plainDisk.tree ["srv"] := by decide
  refine ⟨same, fun told => ?_⟩
  exact absurd same ((told _ rfl).2.1.mp rfl)

end Geeboard.Agent
