/-
This file says what each file system call can do, one lemma for each kind.

A call whose natural effect is known turns out in one of a few ways, and the
lemma lists them with the disk they leave. The proofs about the restore and the
sweep take these lists apart instead of the definition of an answer, so that a
step of the code is one case split and never a computation.
-/

import Geeboard.Agent.Restore

namespace Geeboard.Agent

open Effects Code

/-! ### Names next to a server's directory -/

theorem stagingOf_ne (serverId suffix : String) : stagingOf serverId suffix ≠ serverId := by
  intro equal
  have lengths := congrArg String.length equal
  simp only [stagingOf, String.length_append] at lengths
  have positive : ".restoring-".length = 11 := by decide
  omega

theorem asideOf_ne (serverId suffix : String) : asideOf serverId suffix ≠ serverId := by
  intro equal
  have lengths := congrArg String.length equal
  simp only [asideOf, String.length_append] at lengths
  have positive : ".replaced-".length = 10 := by decide
  omega

theorem asideOf_ne_stagingOf (serverId suffix : String) :
    asideOf serverId suffix ≠ stagingOf serverId suffix := by
  intro equal
  have lengths := congrArg String.length equal
  simp only [asideOf, stagingOf, String.length_append] at lengths
  have shorter : ".replaced-".length = 10 := by decide
  have longer : ".restoring-".length = 11 := by decide
  omega

theorem root_ne_staging (serverId suffix : String) : [serverId] ≠ [stagingOf serverId suffix] := by
  simpa using (stagingOf_ne serverId suffix).symm

theorem root_ne_aside (serverId suffix : String) : [serverId] ≠ [asideOf serverId suffix] := by
  simpa using (asideOf_ne serverId suffix).symm

theorem aside_ne_staging (serverId suffix : String) :
    [asideOf serverId suffix] ≠ [stagingOf serverId suffix] := by
  simpa using asideOf_ne_stagingOf serverId suffix

/-! ### The outcomes of the steps -/

/-- The step at `site` is done. -/
abbrev Done (faults : Faults) (site : List Label) : Prop := (faults site).fault = .done

/-- The step at `site` takes effect, whether or not it is reported to. -/
abbrev TakesEffect (faults : Faults) (site : List Label) : Prop :=
  (faults site).fault = .done ∨ (faults site).fault = .doneThenFailed

/-- The world may be renamed onto this path: nothing is there, or an empty directory. -/
def Free (disk : Disk) (path : Path) : Prop :=
  ((disk.entries path).map Entry.replaceable).getD true = true

instance (disk : Disk) (path : Path) : Decidable (Free disk path) :=
  inferInstanceAs (Decidable (_ = _))

/-! ### What the calls do -/

@[simp] theorem ran_ite {Result : Type} (faults : Faults) (condition : Prop) [Decidable condition]
    (first second : AgentCode Result) (disk : Disk) :
    ran faults (if condition then first else second) disk =
      if condition then ran faults first disk else ran faults second disk := by
  split
  · rfl
  · rfl

/-- A call that reads and succeeds by itself: it is done, or it raises the system's error. -/
theorem read_cases (faults : Faults) (site : List Label) (call : Call) (disk : Disk)
    (reply : call.Reply) (natural : perform (faults site) call disk = .ok (reply, disk))
    (idle : performPartly (faults site) call disk = disk) :
    (Done faults site ∧ answer (faults site) call disk = (.ok reply, disk)) ∨
      (¬ Done faults site ∧ answer (faults site) call disk = (.error (faults site).error, disk)) := by
  unfold answer
  rw [natural, idle]
  cases fault : (faults site).fault <;> simp [Done, fault]

/-- A call that cannot succeed raises an error of the system whatever happens. -/
theorem refused_cases (faults : Faults) (site : List Label) (call : Call) (disk : Disk)
    {error : Failure} (natural : perform (faults site) call disk = .error error)
    (silent : error.stage = none) (idle : performPartly (faults site) call disk = disk) :
    ∃ raised : Failure, raised.stage = none ∧
      answer (faults site) call disk = (.error raised, disk) := by
  unfold answer
  rw [natural, idle]
  cases fault : (faults site).fault with
  | done => exact ⟨error, silent, rfl⟩
  | failed => exact ⟨_, Outcome.error_stage _, rfl⟩
  | doneThenFailed => exact ⟨error, silent, rfl⟩
  | partly => exact ⟨_, Outcome.error_stage _, rfl⟩

theorem answer_stat_disk (outcome : Outcome) (path : Path) (disk : Disk) :
    (answer outcome (.stat path) disk).2 = disk := by
  unfold answer
  cases outcome.fault <;> cases found : disk.entries path <;> simp [perform, performPartly, found]

theorem answer_stat_ok (outcome : Outcome) (path : Path) (disk : Disk) :
    (answer outcome (.stat path) disk).1.isOk =
      decide (outcome.fault = .done ∧ disk.entries path ≠ none) := by
  unfold answer
  cases outcome.fault <;> cases found : disk.entries path <;>
    simp [perform, Except.isOk, Except.toBool, found]

/-- A rename onto a free place: done, done and reported as failed, or not done. -/
theorem rename_cases (faults : Faults) (site : List Label) (source destination : Path)
    (entry : Entry) (disk : Disk) (there : disk.entries source = some entry)
    (free : Free disk destination) :
    let moved := (disk.put source none).put destination (some entry)
    (Done faults site ∧ answer (faults site) (.rename source destination) disk = (.ok (), moved)) ∨
      (¬ Done faults site ∧ TakesEffect faults site ∧
        answer (faults site) (.rename source destination) disk =
          (.error (faults site).error, moved)) ∨
      (¬ Done faults site ∧ ¬ TakesEffect faults site ∧
        answer (faults site) (.rename source destination) disk =
          (.error (faults site).error, disk)) := by
  have natural : perform (faults site) (.rename source destination) disk =
      .ok ((), (disk.put source none).put destination (some entry)) := by
    unfold Free at free
    cases found : disk.entries destination with
    | none => simp [perform, there, found]
    | some occupant =>
      simp [found] at free
      simp [perform, there, found, free]
  unfold answer
  rw [natural]
  cases fault : (faults site).fault <;> simp [Done, TakesEffect, fault, performPartly]

theorem answer_rename_onto (outcome : Outcome) (source destination : Path) (disk : Disk)
    (blocked : ¬ Free disk destination) (there : disk.entries source ≠ none) :
    ∃ error : Failure, error.stage = none ∧
    (answer outcome (.rename source destination) disk) = (.error error, disk) := by
  have natural : perform outcome (.rename source destination) disk = .error notEmpty := by
    unfold Free at blocked
    cases found : disk.entries destination with
    | none => simp [found] at blocked
    | some occupant =>
      simp [found] at blocked
      cases here : disk.entries source with
      | none => exact absurd here there
      | some entry => simp [perform, here, found, blocked]
  unfold answer
  rw [natural]
  cases outcome.fault <;> simp [performPartly]

theorem answer_rename_missing (outcome : Outcome) (source destination : Path) (disk : Disk)
    (missing : disk.entries source = none) :
    ∃ error : Failure, error.stage = none ∧
    (answer outcome (.rename source destination) disk) = (.error error, disk) := by
  have natural : perform outcome (.rename source destination) disk = .error Agent.missing := by
    simp [perform, missing]
  unfold answer
  rw [natural]
  cases outcome.fault <;> simp [performPartly]

theorem answer_remove (outcome : Outcome) (path : Path) (disk : Disk) :
   (outcome.fault = .done ∧ answer outcome (.remove path) disk = (.ok (), disk.put path none)) ∨
   (outcome.fault ≠ .done ∧ ∃ after, (∀ other, other ≠ path → after.entries other = disk.entries other) ∧ 
     answer outcome (.remove path) disk = (.error outcome.error, after)) := by
  unfold answer
  cases fault : outcome.fault with
  | done => left; simp [perform]
  | failed => right; exact ⟨by simp, disk, fun _ _ => rfl, by simp⟩
  | doneThenFailed => right; exact ⟨by simp, disk.put path none, fun other apart => by simp [apart], by simp [perform]⟩
  | partly =>
    right
    refine ⟨by simp, performPartly outcome (.remove path) disk, fun other apart => ?_, by simp⟩
    cases found : disk.entries path <;> simp [performPartly, found, apart]

theorem mkdir_cases (faults : Faults) (site : List Label) (path : Path) (disk : Disk)
    (unused : disk.entries path = none) :
    (Done faults site ∧ answer (faults site) (.mkdir path) disk =
      (.ok (), disk.put path (some (.directory [] disk.clock)))) ∨
      (¬ Done faults site ∧ ∃ after,
        (∀ other, other ≠ path → after.entries other = disk.entries other) ∧
        answer (faults site) (.mkdir path) disk = (.error (faults site).error, after)) := by
  have natural : perform (faults site) (.mkdir path) disk =
      .ok ((), disk.put path (some (.directory [] disk.clock))) := by
    simp [perform, unused]
  unfold answer
  rw [natural]
  cases fault : (faults site).fault with
  | done => exact .inl ⟨fault, rfl⟩
  | failed => exact .inr ⟨by simp [Done, fault], disk, fun _ _ => rfl, rfl⟩
  | doneThenFailed =>
    exact .inr ⟨by simp [Done, fault], _, fun other apart => by simp [apart], rfl⟩
  | partly => exact .inr ⟨by simp [Done, fault], disk, fun _ _ => rfl, rfl⟩

/-- What an unpacking that fails leaves in an empty directory. -/
def leftBehind (outcome : Outcome) (contents : Tree) : Tree :=
  match outcome.fault with
  | .done => contents
  | .failed => []
  | .doneThenFailed => contents
  | .partly => outcome.left

theorem extract_cases (faults : Faults) (site : List Label) (into source : Path) (disk : Disk)
    {archive : Archive} {made touched : Nat}
    (empty : disk.entries into = some (.directory [] made))
    (there : disk.entries source = some (.file archive touched)) :
    ∃ after, (∀ other, other ≠ into → after.entries other = disk.entries other) ∧
      (∃ at_, after.entries into =
        some (.directory (leftBehind (faults site) archive.contents) at_)) ∧
      ((Done faults site ∧ answer (faults site) (.extract into source) disk =
        (.ok archive.contents.length, after)) ∨
      (¬ Done faults site ∧ answer (faults site) (.extract into source) disk =
        (.error (faults site).error, after))) := by
  have natural : perform (faults site) (.extract into source) disk =
      .ok (archive.contents.length,
        disk.put into (some (.directory archive.contents disk.clock))) := by
    simp [perform, empty, there, Entry.files]
  unfold answer leftBehind
  rw [natural]
  cases fault : (faults site).fault with
  | done =>
    exact ⟨_, fun other apart => by simp [apart], ⟨disk.clock, by simp⟩, .inl ⟨fault, rfl⟩⟩
  | failed =>
    exact ⟨disk, fun _ _ => rfl, ⟨made, empty⟩, .inr ⟨by simp [Done, fault], rfl⟩⟩
  | doneThenFailed =>
    exact ⟨_, fun other apart => by simp [apart], ⟨disk.clock, by simp⟩,
      .inr ⟨by simp [Done, fault], rfl⟩⟩
  | partly =>
    refine ⟨_, fun other apart => ?_, ⟨disk.clock, ?_⟩, .inr ⟨by simp [Done, fault], rfl⟩⟩
    · simp [performPartly, empty, apart]
    · simp [performPartly, empty]

theorem free_congr {disk before : Disk} {path : Path} (same : disk.entries path = before.entries path) :
    Free disk path ↔ Free before path := by
  unfold Free
  rw [same]

theorem tree_congr {disk before : Disk} {path : Path} (same : disk.entries path = before.entries path) :
    disk.tree path = before.tree path := by
  unfold Disk.tree
  rw [same]

end Geeboard.Agent
