/-
This file asks whether a restore and the sweep after it can lose a world.

A restore may be killed between any two of its file system steps or fail at any
of them. Wherever it stops, the world is in the server's place, old or new, or
the place is empty and the old world stands beside it, set aside: that is
`InPlace`, and it holds at every point of a run. What the sweep then does with an
empty place is decided by the first set-aside directory that the listing of the
data root names, whoever set it aside, so the two together keep the world exactly
when that directory holds it.
-/

import Geeboard.Agent.Leftovers
import Geeboard.Agent.Outcomes

namespace Geeboard.Agent

open Effects Code List Option

/-! ### Where the world is while it is restored -/

/-- The old or the new world is in the server's place, or the place is empty and the old one
is set aside. -/
def InPlace (serverId suffix : String) (old new : Tree) (disk : Disk) : Prop :=
  disk.tree [serverId] = some old ∨ disk.tree [serverId] = some new ∨
    (disk.entries [serverId] = none ∧ disk.tree [asideOf serverId suffix] = some old)

section InPlace

variable {serverId suffix : String} {old new : Tree} {disk after : Disk}

/-- What happens elsewhere does not move the world. -/
theorem inPlace_frame (holds : InPlace serverId suffix old new disk)
    (root : after.entries [serverId] = disk.entries [serverId])
    (aside : after.entries [asideOf serverId suffix] = disk.entries [asideOf serverId suffix]) :
    InPlace serverId suffix old new after := by
  unfold InPlace
  rw [tree_congr root, tree_congr aside, root]
  exact holds

/-- The removal of the staging directory, whatever becomes of it, does not move the world. -/
theorem inPlace_rm_staging (outcome : Outcome) (holds : InPlace serverId suffix old new disk) :
    InPlace serverId suffix old new
      (answer outcome (.remove [stagingOf serverId suffix]) disk).2 := by
  have rootStaging := root_ne_staging serverId suffix
  have asideStaging := aside_ne_staging serverId suffix
  obtain ⟨-, answered⟩ | ⟨-, after, kept, answered⟩ :=
    answer_remove outcome [stagingOf serverId suffix] disk
  · rw [answered]
    exact inPlace_frame holds (Disk.put_other _ _ rootStaging) (Disk.put_other _ _ asideStaging)
  · rw [answered]
    exact inPlace_frame holds (kept _ rootStaging) (kept _ asideStaging)

variable {faults : Faults}

theorem notExchanged_inPlace (error : Failure) (restored : Bool)
    (holds : InPlace serverId suffix old new disk) :
    along faults (fun disk _ => InPlace serverId suffix old new disk)
      (notExchanged serverId suffix error restored) disk := by
  have cleared := inPlace_rm_staging (faults [.clearStaging]) holds
  refine along_then (along_request holds cleared) fun result => ?_
  cases restored with
  | true => exact along_throw cleared
  | false => exact along_throw cleared

/-- The two renames of an exchange, from a world in its place: how they can end, and that the
world is in place at every point of them. -/
theorem swap_cases (new : Tree) {entry : Entry} {touched : Nat}
    (root : disk.entries [serverId] = some entry) (files : entry.files = old)
    (staged : disk.entries [stagingOf serverId suffix] = some (.directory new touched))
    (unused : disk.entries [asideOf serverId suffix] = none) :
    let swap : AgentCode Unit := do
      rename .setAside [serverId] [asideOf serverId suffix]
      rename .exchange [stagingOf serverId suffix] [serverId]
    let moved := (disk.put [serverId] none).put [asideOf serverId suffix] (some entry)
    let swapped := (moved.put [stagingOf serverId suffix] none).put [serverId]
      (some (.directory new touched))
    along faults (fun disk _ => InPlace serverId suffix old new disk) swap disk ∧
      (ran faults swap disk = (.ok (), swapped) ∨
        (∃ error, ran faults swap disk = (.error error, swapped)) ∨
        (∃ error, ran faults swap disk = (.error error, moved)) ∨
        ∃ error, ran faults swap disk = (.error error, disk)) := by
  intro swap moved swapped
  have rootAside := root_ne_aside serverId suffix
  have rootStaging := root_ne_staging serverId suffix
  have stagingAside := (aside_ne_staging serverId suffix).symm
  have before : InPlace serverId suffix old new disk := .inl (by simp [Disk.tree, root, files])
  have between : InPlace serverId suffix old new moved :=
    .inr (.inr ⟨by simp [moved, rootAside], by simp [moved, files]⟩)
  have after : InPlace serverId suffix old new swapped := .inr (.inl (by simp [swapped, Entry.files]))
  have exchange :
      (answer (faults [.exchange]) (.rename [stagingOf serverId suffix] [serverId]) moved =
        (.ok (), swapped)) ∨
      (∃ error, answer (faults [.exchange]) (.rename [stagingOf serverId suffix] [serverId])
        moved = (.error error, swapped)) ∨
      ∃ error, answer (faults [.exchange]) (.rename [stagingOf serverId suffix] [serverId])
        moved = (.error error, moved) := by
    obtain ⟨-, answered⟩ | ⟨-, -, answered⟩ | ⟨-, -, answered⟩ :=
      rename_cases faults [.exchange] [stagingOf serverId suffix] [serverId]
        (.directory new touched) moved
        (by simp [moved, stagingAside, rootStaging.symm, staged]) (by simp [moved, Free, rootAside])
    · exact .inl answered
    · exact .inr (.inl ⟨_, answered⟩)
    · exact .inr (.inr ⟨_, answered⟩)
  have exchangeAlong : along faults (fun disk _ => InPlace serverId suffix old new disk)
      (rename .exchange [stagingOf serverId suffix] [serverId]) moved := by
    refine along_request between ?_
    obtain answered | ⟨_, answered⟩ | ⟨_, answered⟩ := exchange
    · rw [answered]
      exact after
    · rw [answered]
      exact after
    · rw [answered]
      exact between
  obtain ⟨-, answered⟩ | ⟨-, -, answered⟩ | ⟨-, -, answered⟩ :=
    rename_cases faults [.setAside] [serverId] [asideOf serverId suffix] entry disk root
      (by simp [Free, unused])
  · refine ⟨along_then (along_request before (by rw [answered]; exact between)) ?_, ?_⟩
    · intro _
      rw [ran_rename, answered]
      exact exchangeAlong
    · rw [ran_bind_ok ((ran_rename _ _ _ _ _).trans answered), ran_rename]
      obtain done | late | never := exchange
      · exact .inl done
      · exact .inr (.inl late)
      · exact .inr (.inr (.inl never))
  · refine ⟨along_bind (along_request before (by rw [answered]; exact between)) ?_, ?_⟩
    · intro result later ended
      rw [ran_rename, answered] at ended
      cases ended
    · exact .inr (.inr (.inl ⟨_, ran_bind_error ((ran_rename _ _ _ _ _).trans answered)⟩))
  · refine ⟨along_bind (along_request before (by rw [answered]; exact before)) ?_, ?_⟩
    · intro result later ended
      rw [ran_rename, answered] at ended
      cases ended
    · exact .inr (.inr (.inr ⟨_, ran_bind_error ((ran_rename _ _ _ _ _).trans answered)⟩))

/-- Putting the old world back leaves it in its place, or aside where it was. -/
theorem putBack_inPlace (error : Failure) (entry : Entry) (files : entry.files = old)
    (aside : disk.entries [asideOf serverId suffix] = some entry)
    (holds : InPlace serverId suffix old new disk) :
    along faults (fun disk _ => InPlace serverId suffix old new disk) (do
      let restored ← (rename .putBack [asideOf serverId suffix] [serverId]).succeeded
      notExchanged serverId suffix error restored) disk := by
  have rootAside := root_ne_aside serverId suffix
  have later : InPlace serverId suffix old new
      (answer (faults [.putBack]) (.rename [asideOf serverId suffix] [serverId]) disk).2 := by
    by_cases free : Free disk [serverId]
    · obtain ⟨-, answered⟩ | ⟨-, -, answered⟩ | ⟨-, -, answered⟩ :=
        rename_cases faults [.putBack] [asideOf serverId suffix] [serverId] entry disk aside free
      · rw [answered]
        exact .inl (by simp [files])
      · rw [answered]
        exact .inl (by simp [files])
      · rw [answered]
        exact holds
    · obtain ⟨refused, -, answered⟩ := answer_rename_onto (faults [.putBack])
        [asideOf serverId suffix] [serverId] disk free (by simp [aside])
      rw [answered]
      exact holds
  refine along_then (along_succeeded (along_request holds later)) fun restored => ?_
  rw [ran_succeeded, ran_rename]
  exact notExchanged_inPlace error restored later

/-- The old world goes last, and its removal does not touch the new one. -/
theorem dropAside_inPlace (count : Nat) (here : disk.tree [serverId] = some new) :
    along faults (fun disk _ => InPlace serverId suffix old new disk) (do
      whenever true do
        let _ ← (rm .dropAside [asideOf serverId suffix]).attempt
      pure (⟨count, .swapped⟩ : RestoreResult)) disk := by
  have rootAside := root_ne_aside serverId suffix
  have later : InPlace serverId suffix old new
      (answer (faults [.dropAside]) (.remove [asideOf serverId suffix]) disk).2 := by
    obtain ⟨-, answered⟩ | ⟨-, after, kept, answered⟩ :=
      answer_remove (faults [.dropAside]) [asideOf serverId suffix] disk
    · rw [answered]
      exact .inr (.inl (by rw [Disk.tree_put_other _ _ rootAside, here]))
    · rw [answered]
      exact .inr (.inl ((tree_congr (kept _ rootAside)).trans here))
  have dropped : along faults (fun disk _ => InPlace serverId suffix old new disk)
      (rm .dropAside [asideOf serverId suffix]).attempt disk :=
    along_attempt (along_request (.inr (.inl here)) later)
  refine along_then (along_then dropped fun _ => along_pure later) fun _ => along_pure ?_
  rw [Code.whenever_true, ran_bind, ran_attempt]
  exact later

/-- The exchange keeps the world in place at every point. -/
theorem exchange_inPlace (count : Nat) {entry : Entry} {touched : Nat}
    (root : disk.entries [serverId] = some entry) (files : entry.files = old)
    (staged : disk.entries [stagingOf serverId suffix] = some (.directory new touched))
    (unused : disk.entries [asideOf serverId suffix] = none) :
    along faults (fun disk _ => InPlace serverId suffix old new disk)
      (exchange serverId suffix count) disk := by
  have rootAside := root_ne_aside serverId suffix
  have stagingAside := (aside_ne_staging serverId suffix).symm
  have before : InPlace serverId suffix old new disk := .inl (by simp [Disk.tree, root, files])
  refine along_bind (along_succeeded (along_request before
    (by rw [answer_stat_disk]; exact before))) fun hadWorld after ended => ?_
  rw [ran_succeeded, ran_stat, answer_stat_disk] at ended
  obtain ⟨-, rfl⟩ := Prod.mk.inj ended
  cases hadWorld with
  | true =>
    obtain ⟨swapAlong, ends⟩ := swap_cases new root files staged unused
    refine along_bind (along_attempt swapAlong) fun exchanged later ended => ?_
    rw [Code.whenever_true, ran_attempt] at ended
    obtain done | ⟨error, late⟩ | ⟨error, moved⟩ | ⟨error, stayed⟩ := ends
    · rw [done] at ended
      cases ended
      exact dropAside_inPlace count (by simp [Entry.files])
    · rw [late] at ended
      cases ended
      exact putBack_inPlace error entry files (by simp [rootAside.symm, stagingAside.symm])
        (.inr (.inl (by simp [Entry.files])))
    · rw [moved] at ended
      cases ended
      exact putBack_inPlace error entry files (by simp)
        (.inr (.inr ⟨by simp [rootAside], by simp [files]⟩))
    · rw [stayed] at ended
      cases ended
      obtain ⟨refused, -, back⟩ := answer_rename_missing (faults [.putBack])
        [asideOf serverId suffix] [serverId] disk unused
      refine along_then (along_succeeded (along_request before (by rw [back]; exact before)))
        fun restored => ?_
      rw [ran_succeeded, ran_rename, back]
      exact notExchanged_inPlace error restored before
  | false =>
    have exchangeAlong : along faults (fun disk _ => InPlace serverId suffix old new disk) (do
        whenever false (rename .setAside [serverId] [asideOf serverId suffix])
        rename .exchange [stagingOf serverId suffix] [serverId]) disk ∧
        InPlace serverId suffix old new
          (ran faults (rename .exchange [stagingOf serverId suffix] [serverId]) disk).2 := by
      have later : InPlace serverId suffix old new
          (answer (faults [.exchange]) (.rename [stagingOf serverId suffix] [serverId]) disk).2 := by
        by_cases free : Free disk [serverId]
        · obtain ⟨-, answered⟩ | ⟨-, -, answered⟩ | ⟨-, -, answered⟩ :=
            rename_cases faults [.exchange] [stagingOf serverId suffix] [serverId] _ disk
              staged free
          · rw [answered]
            exact .inr (.inl (by simp [Entry.files]))
          · rw [answered]
            exact .inr (.inl (by simp [Entry.files]))
          · rw [answered]
            exact before
        · obtain ⟨refused, -, answered⟩ := answer_rename_onto (faults [.exchange])
            [stagingOf serverId suffix] [serverId] disk free (by simp [staged])
          rw [answered]
          exact before
      exact ⟨along_then (along_pure before) fun _ => along_request before later, later⟩
    refine along_then (along_attempt exchangeAlong.1) fun exchanged => ?_
    have last : InPlace serverId suffix old new (ran faults (attempt do
        whenever false (rename .setAside [serverId] [asideOf serverId suffix])
        rename .exchange [stagingOf serverId suffix] [serverId]) disk).2 := by
      rw [ran_attempt, Code.whenever_false, ran_bind_ok (ran_pure _ _ _)]
      exact exchangeAlong.2
    cases exchanged with
    | error error => exact along_then (along_pure last) fun restored =>
        notExchanged_inPlace error restored last
    | ok _ => exact along_then (along_pure last) fun _ => along_pure last

/-- The restore beside the world keeps the world in place at every point. -/
theorem restoreSwapped_inPlace {target : Path} {entry : Entry} {archive : Archive}
    {touched : Nat} (root : disk.entries [serverId] = some entry) (files : entry.files = old)
    (there : disk.entries target = some (.file archive touched))
    (stagingUnused : disk.entries [stagingOf serverId suffix] = none)
    (asideUnused : disk.entries [asideOf serverId suffix] = none) :
    along faults (fun disk _ => InPlace serverId suffix old archive.contents disk)
      (restoreSwapped serverId suffix target) disk := by
  have rootStaging := root_ne_staging serverId suffix
  have asideStaging := aside_ne_staging serverId suffix
  have targetStaging : target ≠ [stagingOf serverId suffix] := by
    intro equal
    rw [equal, stagingUnused] at there
    cases there
  have before : InPlace serverId suffix old archive.contents disk :=
    .inl (by simp [Disk.tree, root, files])
  have dropped : ∀ (later : Disk) (error : Failure),
      InPlace serverId suffix old archive.contents later →
      along faults (fun disk _ => InPlace serverId suffix old archive.contents disk) (do
        rm .dropStaging [stagingOf serverId suffix]
        (throw (untouched (describeFailure error)) : AgentCode RestoreResult)) later := by
    intro later error holds
    have cleared := inPlace_rm_staging (faults [.dropStaging]) holds
    exact along_then (along_request holds cleared) fun _ => along_throw cleared
  unfold restoreSwapped
  obtain ⟨-, made⟩ | ⟨-, after, kept, made⟩ :=
    mkdir_cases faults [.makeStaging] _ _ stagingUnused
  · have staging : InPlace serverId suffix old archive.contents
        (disk.put [stagingOf serverId suffix] (some (.directory [] disk.clock))) :=
      inPlace_frame before (Disk.put_other _ _ rootStaging) (Disk.put_other _ _ asideStaging)
    obtain ⟨after, kept, ⟨at_, staged⟩, unpacked⟩ :=
      extract_cases faults [.unpack] [stagingOf serverId suffix] target
        (disk.put [stagingOf serverId suffix] (some (.directory [] disk.clock)))
        (Disk.put_same _ _ _) ((Disk.put_other _ _ targetStaging).trans there)
    have later : InPlace serverId suffix old archive.contents after :=
      inPlace_frame staging (kept _ rootStaging) (kept _ asideStaging)
    have answered : (answer (faults [.unpack]) (.extract [stagingOf serverId suffix] target)
        (disk.put [stagingOf serverId suffix] (some (.directory [] disk.clock)))).2 = after := by
      obtain ⟨-, answered⟩ | ⟨-, answered⟩ := unpacked
      · rw [answered]
      · rw [answered]
    refine along_bind (along_attempt (along_then (along_request before ?_) fun _ => ?_))
      fun result last ended => ?_
    · rw [made]
      exact staging
    · rw [ran_mkdir, made]
      exact along_request staging (by rw [answered]; exact later)
    · rw [ran_attempt, ran_bind_ok ((ran_mkdir _ _ _ _).trans made), ran_extractInto] at ended
      obtain ⟨done, extracted⟩ | ⟨-, extracted⟩ := unpacked
      · rw [extracted] at ended
        cases ended
        have whole : leftBehind (faults [.unpack]) archive.contents = archive.contents := by
          simp [leftBehind, done]
        rw [whole] at staged
        refine exchange_inPlace _ ?_ files staged ?_
        · rw [kept _ rootStaging, Disk.put_other _ _ rootStaging, root]
        · rw [kept _ asideStaging, Disk.put_other _ _ asideStaging, asideUnused]
      · rw [extracted] at ended
        cases ended
        exact dropped _ _ later
  · have later : InPlace serverId suffix old archive.contents after :=
      inPlace_frame before (kept _ rootStaging) (kept _ asideStaging)
    refine along_bind (along_attempt (along_bind (along_request before ?_)
      fun result last ended => ?_)) fun result last ended => ?_
    · rw [made]
      exact later
    · rw [ran_mkdir, made] at ended
      cases ended
    · rw [ran_attempt, ran_bind_error ((ran_mkdir _ _ _ _).trans made)] at ended
      cases ended
      exact dropped _ _ later

end InPlace

/-! ### Names the sweep knows -/

theorem nameBefore_starts {mark name server : String} (named : nameBefore mark name = some server) :
    mark.toList.reverse <+: name.toList.reverse.dropWhile isHex := by
  unfold nameBefore at named
  dsimp only at named
  split at named
  · cases named
  · split at named
    · rename_i starts
      exact isPrefixOf_iff_prefix.mp starts
    · cases named

/-- A directory is not both a world being restored and a world set aside. -/
theorem replacedOf_none_of_restoringOf {name server : String}
    (staging : restoringOf name = some server) : replacedOf name = none := by
  cases aside : replacedOf name with
  | none => rfl
  | some other =>
    obtain ⟨first, firstRest⟩ := nameBefore_starts staging
    obtain ⟨second, secondRest⟩ := nameBefore_starts aside
    have equal := firstRest.trans secondRest.symm
    have marks : ".restoring-".toList.reverse = ['-', 'g', 'n', 'i', 'r', 'o', 't', 's', 'e', 'r', '.']
        ∧ ".replaced-".toList.reverse = ['-', 'd', 'e', 'c', 'a', 'l', 'p', 'e', 'r', '.'] := by
      decide
    rw [marks.1, marks.2] at equal
    simp at equal

theorem dot_mem_of_nameBefore {mark name server : String} (dot : '.' ∈ mark.toList)
    (named : nameBefore mark name = some server) : '.' ∈ name.toList := by
  have inMark : '.' ∈ name.toList.reverse.dropWhile isHex :=
    (nameBefore_starts named).subset (mem_reverse.mpr dot)
  exact mem_reverse.mp ((dropWhile_sublist _).subset inMark)

/-- A server id is not the name of a leftover. -/
theorem leftover_ne_server {serverId mark name server : String}
    (valid : validServerId serverId = true) (dot : '.' ∈ mark.toList)
    (named : nameBefore mark name = some server) : name ≠ serverId := by
  rintro rfl
  have member := dot_mem_of_nameBefore dot named
  simp only [validServerId, Bool.and_eq_true, List.all_eq_true] at valid
  have allowed := valid.2 '.' member
  revert allowed
  decide

theorem isIdChar_not_endsLine {char : Char} (allowed : isIdChar char = true) :
    endsLine char = false := by
  cases ends : endsLine char with
  | false => rfl
  | true =>
    simp only [endsLine, Bool.or_eq_true, beq_iff_eq] at ends
    rcases ends with ((rfl | rfl) | rfl) | rfl
    all_goals exact absurd allowed (by decide)

/-- The directory a restore sets aside is known to the sweep as its server's. -/
theorem replacedOf_asideOf {serverId suffix : String} (valid : validServerId serverId = true)
    (hex : suffix.toList ≠ [] ∧ ∀ char ∈ suffix.toList, isHex char = true) :
    replacedOf (asideOf serverId suffix) = some serverId := by
  obtain ⟨nonempty, digits⟩ := hex
  simp only [validServerId, Bool.and_eq_true, decide_eq_true_eq, List.all_eq_true] at valid
  have reversed : (asideOf serverId suffix).toList.reverse =
      suffix.toList.reverse ++ (".replaced-".toList.reverse ++ serverId.toList.reverse) := by
    simp [asideOf]
  have allHex : ∀ char ∈ suffix.toList.reverse, isHex char = true :=
    fun char member => digits char (mem_reverse.mp member)
  have stops : ∀ rest : List Char,
      (".replaced-".toList.reverse ++ rest).takeWhile isHex = [] ∧
        (".replaced-".toList.reverse ++ rest).dropWhile isHex =
          ".replaced-".toList.reverse ++ rest := fun rest => ⟨rfl, rfl⟩
  have idNonempty : serverId.toList.reverse.isEmpty = false := by
    cases chars : serverId.toList with
    | nil => simp [chars] at valid
    | cons first rest => simp
  have noLine : serverId.toList.reverse.any endsLine = false := by
    rw [List.any_eq_false]
    intro char member
    rw [isIdChar_not_endsLine (valid.2 char (mem_reverse.mp member))]
    exact Bool.false_ne_true
  have suffixNonempty : suffix.toList.reverse.isEmpty = false := by simpa using nonempty
  unfold replacedOf nameBefore
  dsimp only
  rw [reversed, takeWhile_append_of_pos allHex, dropWhile_append_of_pos allHex,
    (stops _).1, (stops _).2, append_nil, suffixNonempty]
  have stem : (".replaced-".toList.reverse ++ serverId.toList.reverse).drop
      ".replaced-".length = serverId.toList.reverse := rfl
  rw [stem, idNonempty, noLine]
  simp

/-! ### What the sweep does -/

section Sweep

variable {faults : Faults} {options : SweepOptions} {serverId : String}

/-- The calls of a sweep that is not disturbed. -/
def Undisturbed (faults : Faults) : Prop := ∀ site, Done faults site

theorem ran_ageOf_disk (faults : Faults) (target : Path) (now : Nat) (disk : Disk) :
    ∃ age, ran faults (ageOf target now) disk = (.ok age, disk) := by
  unfold ageOf
  rw [ran_bind, ran_attempt, ran_newest]
  have same : (answer (faults [.age]) (.newest target) disk).2 = disk := by
    unfold answer
    cases (faults [.age]).fault <;> cases found : disk.entries target <;>
      simp [perform, performPartly, found]
  rw [same]
  cases (answer (faults [.age]) (.newest target) disk).1 with
  | error error => exact ⟨_, rfl⟩
  | ok touched => exact ⟨_, rfl⟩

/-- Dropping a leftover removes it or leaves everything as it is. -/
theorem ran_drop (options : SweepOptions) (undisturbed : Undisturbed faults) (target : Path) (minIdle : Nat) (disk : Disk) :
    ∃ result, ran faults (drop options target minIdle) disk = (.ok result, disk) ∨
      ran faults (drop options target minIdle) disk = (.ok result, disk.put target none) := by
  unfold drop
  obtain ⟨age, aged⟩ := ran_ageOf_disk faults target options.now disk
  rw [ran_bind_ok aged]
  cases age with
  | none => exact ⟨_, .inl rfl⟩
  | some age =>
    simp only [ran_ite]
    split
    · exact ⟨_, .inl rfl⟩
    · have removed : answer (faults [.drop]) (.remove target) disk =
          (.ok (), disk.put target none) := by
        have done : (faults [.drop]).fault = .done := undisturbed [.drop]
        simp [answer, perform, done]
      rw [ran_bind_ok ((ran_rm _ _ _ _).trans removed)]
      exact ⟨_, .inr rfl⟩

theorem undisturbed_within {faults : Faults} (undisturbed : Undisturbed faults) (label : Label) :
    Undisturbed (fun site => faults (label :: site)) :=
  fun site => undisturbed (label :: site)

/-- What the sweep does with one entry of the data root: nothing, or it removes a leftover, or
it moves a world that was set aside back to its empty place. -/
theorem ran_sweepWorld (undisturbed : Undisturbed faults) (options : SweepOptions) (name : String) (disk : Disk)
    (here : disk.entries [name] ≠ none) :
    ∃ result after, ran faults (sweepWorld options name) disk = (.ok result, after) ∧
      ((after = disk ∧ (∀ server, replacedOf name = some server → disk.entries [server] ≠ none)) ∨
        (after = disk.put [name] none ∧
          (restoringOf name ≠ none ∨
            ∃ server, replacedOf name = some server ∧ disk.entries [server] ≠ none)) ∨
        ∃ server, replacedOf name = some server ∧ disk.entries [server] = none ∧
          after = (disk.put [name] none).put [server] (disk.entries [name])) := by
  unfold sweepWorld
  cases staging : restoringOf name with
  | some server =>
    have notAside := replacedOf_none_of_restoringOf staging
    obtain ⟨result, kept | dropped⟩ :=
      ran_drop options undisturbed [name] (idle options 6) disk
    · exact ⟨result, _, kept, .inl ⟨rfl, fun other aside => by simp [notAside] at aside⟩⟩
    · exact ⟨result, _, dropped, .inr (.inl ⟨rfl, .inl (by simp)⟩)⟩
  | none =>
    cases aside : replacedOf name with
    | none => exact ⟨_, _, rfl, .inl ⟨rfl, fun other named => by simp at named⟩⟩
    | some server =>
      simp only
      have seen : ran faults (stat .statWorld [server]).succeeded disk =
          (.ok (decide (disk.entries [server] ≠ none)), disk) := by
        rw [ran_succeeded, ran_stat, answer_stat_disk, answer_stat_ok]
        simp [undisturbed [.statWorld]]
      rw [ran_bind_ok seen]
      by_cases present : disk.entries [server] ≠ none
      · rw [decide_eq_true present, if_pos rfl]
        obtain ⟨result, kept | dropped⟩ :=
          ran_drop options undisturbed [name] (idle options 24) disk
        · refine ⟨result, _, kept, .inl ⟨rfl, fun other named => ?_⟩⟩
          cases named
          exact present
        · exact ⟨result, _, dropped, .inr (.inl ⟨rfl, .inr ⟨server, rfl, present⟩⟩)⟩
      · have absent : disk.entries [server] = none := not_not.mp present
        rw [decide_eq_false present, if_neg Bool.false_ne_true]
        obtain ⟨entry, there⟩ := ne_none_iff_exists'.mp here
        obtain ⟨-, moved⟩ | ⟨notDone, -, -⟩ | ⟨notDone, -, -⟩ :=
          rename_cases faults [.recover] [name] [server] entry disk there (by simp [Free, absent])
        · rw [ran_bind_ok ((ran_rename _ _ _ _ _).trans moved)]
          exact ⟨⟨[], [server]⟩, _, rfl, .inr (.inr ⟨server, rfl, absent, by rw [there]; rfl⟩)⟩
        · exact absurd (undisturbed [.recover]) notDone
        · exact absurd (undisturbed [.recover]) notDone

/-- The first directory of a list that was set aside from the server. -/
def firstAside (serverId : String) (names : List String) : Option String :=
  names.find? fun name => replacedOf name == some serverId

theorem tree_none_iff (disk : Disk) (path : Path) :
    disk.tree path = none ↔ disk.entries path = none := map_eq_none_iff

theorem firstAside_cons_same {name : String} (rest : List String)
    (aside : replacedOf name = some serverId) :
    firstAside serverId (name :: rest) = some name := by
  simp [firstAside, aside]

theorem firstAside_cons_other {name : String} (rest : List String)
    (other : replacedOf name ≠ some serverId) :
    firstAside serverId (name :: rest) = firstAside serverId rest := by
  simp [firstAside, other]

theorem firstAside_congr {names : List String} {disk after : Disk}
    (same : ∀ name ∈ names, after.tree [name] = disk.tree [name]) :
    ((firstAside serverId names).bind fun name => after.tree [name]) =
      (firstAside serverId names).bind fun name => disk.tree [name] := by
  cases found : firstAside serverId names with
  | none => rfl
  | some name => exact same name (mem_of_find?_eq_some found)

/-- The sweep of the entries of the data root: a world in its place stays there, and an empty
place gets the first world of the list that was set aside from it. -/
theorem ran_sweepEach_tree (undisturbed : Undisturbed faults)
    (valid : validServerId serverId = true) (names : List String) (disk : Disk)
    (once : names.Nodup) (here : ∀ name ∈ names, disk.entries [name] ≠ none) :
    (ran faults (sweepEach names (sweepWorld options)) disk).2.tree [serverId] =
      if disk.entries [serverId] ≠ none then disk.tree [serverId]
      else (firstAside serverId names).bind fun name => disk.tree [name] := by
  induction names generalizing disk with
  | nil =>
    simp only [sweepEach, ran_pure, firstAside, find?_nil, bind_none]
    split
    · rfl
    · rename_i absent
      exact (tree_none_iff _ _).mpr (not_not.mp absent)
  | cons name rest inductionHypothesis =>
    obtain ⟨fresh, onceRest⟩ := nodup_cons.mp once
    have apart : ∀ other ∈ rest, [other] ≠ [name] := by
      rintro other member equal
      cases equal
      exact fresh member
    obtain ⟨result, after, swept, effect⟩ :=
      ran_sweepWorld (undisturbed_within undisturbed (.entry name)) options name disk
        (here name mem_cons_self)
    rw [sweepEach, ran_bind_ok ((ran_step _ _ _ _).trans swept), ran_map_disk]
    have hereRest : ∀ other ∈ rest, disk.entries [other] ≠ none :=
      fun other member => here other (mem_cons_of_mem _ member)
    obtain ⟨rfl, guarded⟩ | ⟨rfl, guarded⟩ | ⟨server, aside, absent, rfl⟩ := effect
    · rw [inductionHypothesis _ onceRest hereRest]
      split
      · rfl
      · rename_i missing
        rw [firstAside_cons_other rest fun aside => missing (guarded _ aside)]
    · have rootApart : [serverId] ≠ [name] := by
        rintro equal
        cases equal
        rcases guarded with staging | ⟨server, aside, -⟩
        · obtain ⟨server, named⟩ := ne_none_iff_exists'.mp staging
          exact leftover_ne_server valid (by decide) named rfl
        · exact leftover_ne_server valid (by decide) aside rfl
      rw [inductionHypothesis _ onceRest fun other member => by
        rw [Disk.put_other _ _ (apart other member)]
        exact hereRest other member]
      rw [Disk.put_other _ _ rootApart, Disk.tree_put_other _ _ rootApart]
      split
      · rfl
      · rename_i missing
        rw [firstAside_cons_other, firstAside_congr fun other member =>
          Disk.tree_put_other _ _ (apart other member)]
        intro aside
        rcases guarded with staging | ⟨server, other, present⟩
        · obtain ⟨server, named⟩ := ne_none_iff_exists'.mp staging
          rw [replacedOf_none_of_restoringOf named] at aside
          cases aside
        · rw [other] at aside
          cases aside
          exact missing present
    · have rootApart : [serverId] ≠ [name] := by
        rintro equal
        cases equal
        exact leftover_ne_server valid (by decide) aside rfl
      have serverApart : ∀ other ∈ rest, [other] ≠ [server] := by
        rintro other member equal
        cases equal
        exact hereRest server member absent
      rw [inductionHypothesis _ onceRest fun other member => by
        rw [Disk.put_other _ _ (serverApart other member), Disk.put_other _ _ (apart other member)]
        exact hereRest other member]
      by_cases same : server = serverId
      · subst same
        rw [Disk.put_same, if_pos (here name mem_cons_self), Disk.tree_put_same,
          if_neg (not_not.mpr absent), firstAside_cons_same rest aside]
        rfl
      · have rootServer : [serverId] ≠ [server] := by simpa using Ne.symm same
        rw [Disk.put_other _ _ rootServer, Disk.put_other _ _ rootApart,
          Disk.tree_put_other _ _ rootServer, Disk.tree_put_other _ _ rootApart]
        split
        · rfl
        · rw [firstAside_cons_other rest (by rw [aside]; simpa using same)]
          refine firstAside_congr fun other member => ?_
          rw [Disk.tree_put_other _ _ (serverApart other member),
            Disk.tree_put_other _ _ (apart other member)]

/-- A step of the sweep that ends well and leaves the entries of the data root alone. -/
def KeepsRoot (one : AgentCode SweepResult) : Prop :=
  ∀ faults, Undisturbed faults → ∀ disk, ∃ result after,
    ran faults one disk = (.ok result, after) ∧
      ∀ name, after.entries [name] = disk.entries [name]

theorem ran_list (undisturbed : Undisturbed faults) (folder : Path) (disk : Disk) :
    ran faults (list folder) disk =
      (.ok ((faults [.list folder]).listing.filter fun name => disk.present (folder ++ [name])),
        disk) := by
  have listed : answer (faults [.list folder]) (.readdir folder) disk =
      (.ok ((faults [.list folder]).listing.filter fun name => disk.present (folder ++ [name])),
        disk) := by
    have done : (faults [.list folder]).fault = .done := undisturbed [.list folder]
    simp [answer, perform, done]
  unfold list
  rw [ran_bind, ran_attempt, ran_readdir, listed]
  rfl

theorem sweepEach_keepsRoot {one : String → AgentCode SweepResult}
    (keeps : ∀ name, KeepsRoot (one name)) (names : List String) :
    KeepsRoot (sweepEach names one) := by
  intro faults undisturbed disk
  induction names generalizing disk with
  | nil => exact ⟨_, disk, rfl, fun _ => rfl⟩
  | cons name rest inductionHypothesis =>
    obtain ⟨first, middle, ranFirst, keptFirst⟩ :=
      keeps name _ (undisturbed_within undisturbed (.entry name)) disk
    obtain ⟨second, after, ranRest, keptRest⟩ := inductionHypothesis middle
    refine ⟨first.and second, after, ?_, fun other => (keptRest other).trans (keptFirst other)⟩
    rw [sweepEach, ran_bind_ok ((ran_step _ _ _ _).trans ranFirst), ran_bind_ok ranRest, ran_pure]

theorem sweepFolder_keepsRoot (options : SweepOptions) (folder : String)
    (unfinished : String → Bool) : KeepsRoot (sweepFolder options folder unfinished) := by
  intro faults undisturbed disk
  unfold sweepFolder
  rw [ran_bind_ok (ran_list undisturbed [folder] disk)]
  refine sweepEach_keepsRoot (fun server faults undisturbed disk => ?_) _ faults undisturbed disk
  rw [ran_bind_ok (ran_list undisturbed [folder, server] disk)]
  refine sweepEach_keepsRoot (fun name faults undisturbed disk => ?_) _ faults undisturbed disk
  rw [ran_ite]
  split
  · obtain ⟨result, kept | dropped⟩ :=
      ran_drop options undisturbed [folder, server, name] (idle options 3) disk
    · exact ⟨result, disk, kept, fun _ => rfl⟩
    · exact ⟨result, _, dropped, fun other => Disk.put_other _ _ (by simp)⟩
  · exact ⟨_, disk, rfl, fun _ => rfl⟩

/-- What an undisturbed sweep makes of a server's place: a world in it stays, and into an empty
one comes the first world that the listing names as set aside from it. -/
theorem ran_sweepLeftovers_tree (undisturbed : Undisturbed faults) (options : SweepOptions)
    (valid : validServerId serverId = true) (once : (faults [.list []]).listing.Nodup)
    (disk : Disk) :
    (ran faults (sweepLeftovers options) disk).2.tree [serverId] =
      if disk.entries [serverId] ≠ none then disk.tree [serverId]
      else (firstAside serverId
        ((faults [.list []]).listing.filter fun name => disk.present [name])).bind
          fun name => disk.tree [name] := by
  obtain ⟨archives, first, ranArchives, keptFirst⟩ :=
    sweepFolder_keepsRoot options ".backups" mentionsPartial faults undisturbed disk
  obtain ⟨uploads, second, ranUploads, keptSecond⟩ :=
    sweepFolder_keepsRoot options ".uploads" endsInUpload faults undisturbed first
  have kept : ∀ name, second.entries [name] = disk.entries [name] :=
    fun name => (keptSecond name).trans (keptFirst name)
  have trees : ∀ name, second.tree [name] = disk.tree [name] := fun name => tree_congr (kept name)
  have present : ∀ name, second.present [name] = disk.present [name] := fun name => by
    simp only [Disk.present, kept name]
  unfold sweepLeftovers
  rw [ran_bind_ok ranArchives, ran_bind_ok ranUploads, ran_bind_ok (ran_list undisturbed [] second),
    ran_map_disk, ran_sweepEach_tree undisturbed valid _ _ (once.filter _) ?_]
  · simp only [nil_append, kept, trees, present]
  · intro name member
    have found := (mem_filter.mp member).2
    simp only [nil_append, Disk.present, isSome_iff_ne_none] at found
    exact found

end Sweep

/-! ### What the sweep deletes -/

/-- A call does not delete a world that was set aside from a server whose place is empty. -/
def Spares (serverId : String) (disk : Disk) (call : Option Call) : Prop :=
  ∀ name, call = some (.remove [name]) → replacedOf name = some serverId →
    disk.entries [serverId] ≠ none

section Spares

variable {serverId : String} {faults : Faults} {disk : Disk}

theorem spares_none (disk : Disk) : Spares serverId disk none := by
  intro name asked
  cases asked

theorem spares_other {call : Call} (other : ∀ path, call ≠ .remove path) :
    Spares serverId disk (some call) := by
  intro name asked
  exact absurd (some.inj asked) (other _)

theorem drop_spares (options : SweepOptions) (target : Path) (minIdle : Nat)
    (safe : Spares serverId disk (some (.remove target))) :
    along faults (Spares serverId) (drop options target minIdle) disk := by
  obtain ⟨age, aged⟩ := ran_ageOf_disk faults target options.now disk
  refine along_bind ?_ fun found after ended => ?_
  · refine along_then (along_attempt (along_request (spares_other fun path equal => by cases equal)
      (spares_none _))) fun touched => ?_
    cases touched with
    | error error => exact along_pure (spares_none _)
    | ok touched => exact along_pure (spares_none _)
  · rw [aged] at ended
    cases ended
    cases age with
    | none => exact along_pure (spares_none _)
    | some age =>
      dsimp only
      split
      · exact along_pure (spares_none _)
      · exact along_then (along_request safe (spares_none _)) fun _ => along_pure (spares_none _)

theorem sweepEach_spares {one : String → AgentCode SweepResult}
    (spares : ∀ name faults disk, along faults (Spares serverId) (one name) disk)
    (names : List String) (disk : Disk) :
    along faults (Spares serverId) (sweepEach names one) disk := by
  induction names generalizing disk with
  | nil => exact along_pure (spares_none _)
  | cons name rest inductionHypothesis =>
    exact along_then (along_step (spares name _ disk)) fun first =>
      along_then (inductionHypothesis _) fun second => along_pure (spares_none _)

theorem list_spares (folder : Path) : along faults (Spares serverId) (list folder) disk := by
  refine along_then (along_attempt (along_request (spares_other fun path equal => by cases equal)
    (spares_none _))) fun names => ?_
  cases names with
  | error error => exact along_pure (spares_none _)
  | ok names => exact along_pure (spares_none _)

theorem sweepFolder_spares (options : SweepOptions) (folder : String)
    (unfinished : String → Bool) :
    along faults (Spares serverId) (sweepFolder options folder unfinished) disk := by
  refine along_then (list_spares _) fun servers => sweepEach_spares (fun server faults disk => ?_) _ _
  refine along_then (list_spares _) fun names => sweepEach_spares (fun name faults disk => ?_) _ _
  split
  · refine drop_spares options _ _ fun other asked => ?_
    simp at asked
  · exact along_pure (spares_none _)

theorem sweepWorld_spares (options : SweepOptions) (name : String) :
    along faults (Spares serverId) (sweepWorld options name) disk := by
  unfold sweepWorld
  cases staging : restoringOf name with
  | some server =>
    refine drop_spares options _ _ fun other asked aside => ?_
    cases asked
    rw [replacedOf_none_of_restoringOf staging] at aside
    cases aside
  | none =>
    cases named : replacedOf name with
    | none => exact along_pure (spares_none _)
    | some server =>
      refine along_bind (along_succeeded (along_request
        (spares_other fun path equal => by cases equal) (spares_none _)))
        fun present after ended => ?_
      rw [ran_succeeded, ran_stat, answer_stat_disk, answer_stat_ok] at ended
      cases ended
      split
      · rename_i seen
        refine drop_spares options _ _ fun other asked aside => ?_
        cases asked
        rw [named] at aside
        cases aside
        exact (of_decide_eq_true seen).2
      · exact along_then (along_request (spares_other fun path equal => by cases equal)
          (spares_none _)) fun _ => along_pure (spares_none _)

/-- No sweep deletes a world that was set aside while the server's place is empty. -/
theorem sweepLeftovers_spares (options : SweepOptions) :
    along faults (Spares serverId) (sweepLeftovers options) disk :=
  along_then (sweepFolder_spares options _ _) fun _ =>
    along_then (sweepFolder_spares options _ _) fun _ =>
      along_then (list_spares _) fun _ =>
        along_then (sweepEach_spares (fun name _ _ => sweepWorld_spares options name) _ _) fun _ =>
          along_pure (spares_none _)

end Spares

/-! ### The restore and the sweeps after it -/

/-- A run of the sweep: the outcomes of its calls and its options. -/
abbrev SweepRun : Type := Faults × SweepOptions

/-- The disk after the sweeps, one after the other. -/
def sweepAll (sweeps : List SweepRun) (disk : Disk) : Disk :=
  sweeps.foldl (fun disk sweep => (ran sweep.1 (sweepLeftovers sweep.2) disk).2) disk

/-- The sweeps spare what was set aside while the server's place is empty. -/
def SpareAside (serverId : String) : List SweepRun → Disk → Prop
  | [], _ => True
  | sweep :: rest, disk =>
    along sweep.1 (Spares serverId) (sweepLeftovers sweep.2) disk ∧
      SpareAside serverId rest (ran sweep.1 (sweepLeftovers sweep.2) disk).2

/-- The world survived: the server's directory holds the old world or the new one, whole, and
no sweep deleted a copy that was set aside while the directory was missing. -/
def WorldKept (serverId : String) (old new : Tree) (sweeps : List SweepRun) (disk : Disk) :
    Prop :=
  ((sweepAll sweeps disk).tree [serverId] = some old ∨
    (sweepAll sweeps disk).tree [serverId] = some new) ∧ SpareAside serverId sweeps disk

/-- The listing of the data root in a sweep of a disk. -/
def SweepRun.names (sweep : SweepRun) (disk : Disk) : List String :=
  (sweep.1 [.list []]).listing.filter fun name => disk.present [name]

/-- A sweep whose calls are done and that lists no name twice. -/
def SweepRun.Sound (sweep : SweepRun) : Prop :=
  Undisturbed sweep.1 ∧ (sweep.1 [.list []]).listing.Nodup

theorem spareAside_all (serverId : String) (sweeps : List SweepRun) (disk : Disk) :
    SpareAside serverId sweeps disk := by
  induction sweeps generalizing disk with
  | nil => trivial
  | cons sweep rest inductionHypothesis =>
    exact ⟨sweepLeftovers_spares sweep.2, inductionHypothesis _⟩

/-- Later sweeps leave a world that is in its place there. -/
theorem sweepAll_present {serverId : String} (valid : validServerId serverId = true)
    (sweeps : List SweepRun) (sound : ∀ sweep ∈ sweeps, sweep.Sound) {disk : Disk}
    (present : disk.entries [serverId] ≠ none) :
    (sweepAll sweeps disk).tree [serverId] = disk.tree [serverId] := by
  induction sweeps generalizing disk with
  | nil => rfl
  | cons sweep rest inductionHypothesis =>
    obtain ⟨undisturbed, once⟩ := sound sweep mem_cons_self
    have kept := ran_sweepLeftovers_tree undisturbed sweep.2 valid once disk
    rw [if_pos present] at kept
    have still : (ran sweep.1 (sweepLeftovers sweep.2) disk).2.entries [serverId] ≠ none := by
      intro absent
      rw [(tree_none_iff _ _).mpr absent] at kept
      exact present ((tree_none_iff _ _).mp kept.symm)
    exact (inductionHypothesis (fun other member => sound other (mem_cons_of_mem _ member))
      still).trans kept

/-- When the server's place is empty, the listing names a world that was set aside from it. -/
theorem firstAside_of_inPlace {serverId suffix : String} {old new : Tree} {disk : Disk}
    (sweep : SweepRun) (aside : replacedOf (asideOf serverId suffix) = some serverId)
    (holds : InPlace serverId suffix old new disk) (absent : disk.entries [serverId] = none)
    (complete : ∀ name, disk.entries [name] ≠ none → name ∈ (sweep.1 [.list []]).listing) :
    ∃ name, firstAside serverId (sweep.names disk) = some name := by
  have missing : disk.tree [serverId] = none := (tree_none_iff _ _).mpr absent
  have kept : disk.tree [asideOf serverId suffix] = some old := by
    rcases holds with here | here | ⟨-, aside⟩
    · rw [missing] at here
      cases here
    · rw [missing] at here
      cases here
    · exact aside
  have there : disk.entries [asideOf serverId suffix] ≠ none := by
    intro gone
    rw [(tree_none_iff _ _).mpr gone] at kept
    cases kept
  have named : asideOf serverId suffix ∈ sweep.names disk :=
    mem_filter.mpr ⟨complete _ there, isSome_iff_ne_none.mpr there⟩
  have found : (firstAside serverId (sweep.names disk)).isSome = true :=
    find?_isSome.mpr ⟨_, named, by simp [aside]⟩
  exact isSome_iff_exists.mp found

/-- Wherever a restore stops, by a failure or because its agent is killed there, the sweeps
that follow keep the world exactly when its place is not empty, or when the first directory set
aside from the server that the first sweep's listing names holds the old world or the new one.
Nothing else on the disk matters, however many directories earlier restores left behind. -/
theorem restore_then_sweeps_iff (faults : Faults) (count : Nat) (first : SweepRun)
    (later : List SweepRun) (serverId suffix : String) (target : Path) (before stopped : Disk)
    (world : Entry) (archive : Archive) (touched : Nat)
    (valid : validServerId serverId = true)
    (hex : suffix.toList ≠ [] ∧ ∀ char ∈ suffix.toList, isHex char = true)
    (root : before.entries [serverId] = some world)
    (there : before.entries target = some (.file archive touched))
    (stagingUnused : before.entries [stagingOf serverId suffix] = none)
    (asideUnused : before.entries [asideOf serverId suffix] = none)
    (stops : Program.killedAfter machine () faults count
      (restoreSwapped serverId suffix target ()) before = stopped)
    (sound : ∀ sweep ∈ first :: later, sweep.Sound)
    (complete : ∀ name, stopped.entries [name] ≠ none → name ∈ (first.1 [.list []]).listing) :
    WorldKept serverId world.files archive.contents (first :: later) stopped ↔
      stopped.entries [serverId] ≠ none ∨
        ∃ name, firstAside serverId (first.names stopped) = some name ∧
          (stopped.tree [name] = some world.files ∨
            stopped.tree [name] = some archive.contents) := by
  have holds : InPlace serverId suffix world.files archive.contents stopped := by
    rw [← stops]
    exact Program.killedAfter_holds count
      (restoreSwapped_inPlace root rfl there stagingUnused asideUnused)
  unfold WorldKept
  rw [and_iff_left (spareAside_all _ _ _)]
  by_cases present : stopped.entries [serverId] ≠ none
  · rw [sweepAll_present valid _ sound present]
    refine iff_of_true ?_ (.inl present)
    rcases holds with old | new | ⟨absent, -⟩
    · exact .inl old
    · exact .inr new
    · exact absurd absent present
  · obtain ⟨undisturbed, once⟩ := sound first mem_cons_self
    have swept := ran_sweepLeftovers_tree undisturbed first.2 valid once stopped
    rw [if_neg present] at swept
    obtain ⟨name, found⟩ := firstAside_of_inPlace first (replacedOf_asideOf valid hex) holds
      (not_not.mp present) complete
    have found' : firstAside serverId
        ((first.1 [.list []]).listing.filter fun name => stopped.present [name]) = some name :=
      found
    rw [found', bind_some] at swept
    have named : stopped.entries [name] ≠ none := by
      have member := mem_of_find?_eq_some found
      exact isSome_iff_ne_none.mp (mem_filter.mp member).2
    have recovered : (ran first.1 (sweepLeftovers first.2) stopped).2.entries [serverId] ≠ none := by
      intro gone
      rw [(tree_none_iff _ _).mpr gone] at swept
      exact named ((tree_none_iff _ _).mp swept.symm)
    have final : (sweepAll (first :: later) stopped).tree [serverId] = stopped.tree [name] :=
      (sweepAll_present valid later
        (fun sweep member => sound sweep (mem_cons_of_mem _ member)) recovered).trans swept
    rw [final, found]
    constructor
    · intro whole
      exact .inr ⟨name, rfl, whole⟩
    · rintro (there | ⟨other, same, whole⟩)
      · exact absurd there present
      · cases same
        exact whole

/-- A world, an archive of it, and a directory that an earlier restore set aside and its agent
was killed before it could remove. -/
def leftoverDisk : Disk where
  entries path :=
    if path = ["srv"] then some (.directory [("level.dat", 2)] 10)
    else if path = ["srv.replaced-00aa"] then some (.directory [("level.dat", 1)] 5)
    else if path = [".backups", "srv", "srv-manual.tar.gz"] then
      some (.file ⟨20, "sha256:3", 40, [("level.dat", 3)]⟩ 10)
    else none
  free := 0
  total := 0
  clock := 20

/-- A sweep at start-up, of a data root that names its directories in this order. -/
def sweepNaming (names : List String) : SweepRun :=
  (fun _ => { listing := names }, { startup := true, now := 100 })

theorem sweepNaming_sound {names : List String} (once : names.Nodup) :
    (sweepNaming names).Sound := ⟨fun _ => rfl, once⟩

/-- A restore on that disk, killed once the world was set aside. -/
def killedDisk : Disk :=
  Program.killedAfter machine () (fun _ => {}) 4
    (restoreSwapped "srv" "00bb" [".backups", "srv", "srv-manual.tar.gz"] ()) leftoverDisk

theorem killedDisk_eq : killedDisk =
    (((leftoverDisk.put ["srv.restoring-00bb"] (some (.directory [] 20))).put
      ["srv.restoring-00bb"] (some (.directory [("level.dat", 3)] 20))).put ["srv"] none).put
        ["srv.replaced-00bb"] (some (.directory [("level.dat", 2)] 10)) := rfl

theorem killedDisk_names (name : String) (there : killedDisk.entries [name] ≠ none) :
    name ∈ ["srv.replaced-00bb", "srv.replaced-00aa", "srv.restoring-00bb"] := by
  rw [killedDisk_eq] at there
  by_contra other
  simp only [mem_cons, not_mem_nil, or_false, not_or] at other
  apply there
  by_cases world : name = "srv"
  · subst world
    rfl
  · simp [Disk.put, Function.update, leftoverDisk, other, world]

theorem restore_then_sweeps_iff_killed :
    WorldKept "srv" [("level.dat", 2)] [("level.dat", 3)]
        [sweepNaming ["srv.replaced-00bb", "srv.replaced-00aa", "srv.restoring-00bb"]] killedDisk ↔
      killedDisk.entries ["srv"] ≠ none ∨
        ∃ name, firstAside "srv" ((sweepNaming ["srv.replaced-00bb", "srv.replaced-00aa",
          "srv.restoring-00bb"]).names killedDisk) = some name ∧
          (killedDisk.tree [name] = some [("level.dat", 2)] ∨
            killedDisk.tree [name] = some [("level.dat", 3)]) :=
  restore_then_sweeps_iff (fun _ => {}) 4
    (sweepNaming ["srv.replaced-00bb", "srv.replaced-00aa", "srv.restoring-00bb"]) [] "srv" "00bb"
    [".backups", "srv", "srv-manual.tar.gz"] leftoverDisk killedDisk
    (.directory [("level.dat", 2)] 10) ⟨20, "sha256:3", 40, [("level.dat", 3)]⟩ 10 (by decide +kernel)
    ⟨by decide +kernel, List.all_eq_true.mp (by decide +kernel)⟩ rfl rfl rfl rfl rfl
    (by
      intro sweep member
      cases mem_singleton.mp member
      exact sweepNaming_sound (by decide +kernel))
    killedDisk_names

/-- The older leftover, named first, takes the server's place, and the world that was in it
until the agent was killed is deleted as a leftover. -/
theorem older_leftover_takes_the_place :
    let sweep := sweepNaming ["srv.replaced-00aa", "srv.replaced-00bb", "srv.restoring-00bb"]
    (sweepAll [sweep] killedDisk).tree ["srv"] = some [("level.dat", 1)] ∧
      (sweepAll [sweep] killedDisk).entries ["srv.replaced-00bb"] = none ∧
      ¬ WorldKept "srv" [("level.dat", 2)] [("level.dat", 3)] [sweep] killedDisk := by
  refine ⟨by decide +kernel, by decide +kernel, fun kept => ?_⟩
  rcases kept.1 with old | new
  · exact absurd old (by decide +kernel)
  · exact absurd new (by decide +kernel)

end Geeboard.Agent
