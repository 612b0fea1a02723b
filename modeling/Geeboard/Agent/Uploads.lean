/-
This file models an upload, as the agent takes it in.

The stream is written whole to a temporary file in a directory of its own, and renamed
to the name it is for. Where that name is on another file system the rename is refused,
and the old file is removed and the temporary one copied to its place. Every awaited
call can fail; a transfer can break off with some of its bytes written. What fails
before the name is touched leaves what was there, and what fails afterwards does not.

A copy that is made whole is never closed: the stream that wrote it keeps hold of the
file, and the closing of a file that is held is not answered. The upload waits there
for good, neither throwing nor returning, and nothing that comes after it takes place.
-/

import Geeboard.Effects.Failures

namespace Geeboard.Uploads

open Effects Code List

abbrev Bytes : Type := List UInt8

/-! ### The stream and the file system -/

/-- Why an upload is refused. -/
inductive Failure where
  | path (text : String)
  | notFound (text : String)
  | system (code : String)
  deriving DecidableEq, Repr

/-- A stream: its chunks, and the error it breaks off with after them, if it does. -/
structure Source where
  chunks : List Bytes
  breaks : Option Failure
  deriving DecidableEq, Repr

def MAX_RAW_BYTES : Nat := 256 * 1024 * 1024

/-- What passes the limit of a stream when so many bytes have passed it, and whether a chunk is
refused. -/
def limited (most : Nat) : Nat → List Bytes → Bytes × Bool
  | _, [] => ([], false)
  | written, chunk :: rest =>
    if most < written + chunk.length then ([], true)
    else
      let passed := limited most (written + chunk.length) rest
      (chunk ++ passed.1, passed.2)

/-- What stands at a name. -/
inductive Held where
  | file (bytes : Bytes)
  | link (target : String)
  | directory
  deriving DecidableEq, Repr

/-- The name an upload is for, as the walk to it ends, what stands there, and what the temporary
file holds. -/
structure Disk where
  name : String
  target : Option Held
  temporary : Option Bytes
  deriving DecidableEq, Repr

/-- The calls: the walk to the directory that holds the name, looking at the name, the directory
for uploads, the stream into the temporary file, its rename, the removal of the old file, a new
file at the name, asking what was opened, the copy, closing a copy that failed, the removal of the
temporary file, and closing the directory. -/
inductive Call where
  | locate
  | lstat
  | mkdir
  | pipeline (source : Source)
  | rename
  | unlink
  | openNew
  | isFile
  | copy
  | closeFile
  | removeTemporary
  | close

abbrev Call.Reply : Call → Type
  | .locate => String
  | .lstat => Option Held
  | .pipeline _ => Nat
  | .isFile => Bool
  | _ => Unit

/-- The awaited steps of an upload. -/
inductive Label where
  | locate | look | makeUploads | fill | rename | removeOld | openNew | askOpened | closeRefused
  | copy | closeCopy | cleanUp | lookAgain | close
  deriving DecidableEq, Repr

/-- How a call turns out: it is done, it fails without effect, or, for a transfer, it fails with
so many bytes written. -/
inductive Outcome where
  | done
  | failed (failure : Failure)
  | brokeOff (bytes : Nat) (failure : Failure)
  deriving DecidableEq, Repr

abbrev interface : Interface where
  Call := Call
  Reply := Call.Reply
  Failure := Failure
  Label := Label

abbrev UploadCode (Result : Type) : Type := Code interface Unit Result

/-- One awaited call. -/
def request (label : Label) (call : Call) : UploadCode call.Reply :=
  @Code.call interface Unit label call

/-- The stream into a new file: all that passes the limit is written, and it ends well when
nothing was refused and the stream did not break. -/
def filled (source : Source) (disk : Disk) : Except Failure Nat × Disk :=
  let passed := limited MAX_RAW_BYTES 0 source.chunks
  let after := { disk with temporary := some passed.1 }
  if passed.2 then (.error (.path s!"uploads stop at {MAX_RAW_BYTES} bytes"), after)
  else
    match source.breaks with
    | some failure => (.error failure, after)
    | none => (.ok passed.1.length, after)

/-- What a call does when nothing interferes. -/
def perform : (call : Call) → Disk → Except Failure call.Reply × Disk
  | .locate, disk => (.ok disk.name, disk)
  | .lstat, disk => (.ok disk.target, disk)
  | .mkdir, disk => (.ok (), disk)
  | .pipeline source, disk =>
    if disk.temporary.isSome then (.error (.system "EEXIST"), disk) else filled source disk
  | .rename, disk =>
    match disk.temporary with
    | none => (.error (.system "ENOENT"), disk)
    | some bytes =>
      if disk.target = some .directory then (.error (.system "EISDIR"), disk)
      else (.ok (), { disk with target := some (.file bytes), temporary := none })
  | .unlink, disk =>
    match disk.target with
    | none => (.error (.system "ENOENT"), disk)
    | some .directory => (.error (.system "EISDIR"), disk)
    | some _ => (.ok (), { disk with target := none })
  | .openNew, disk =>
    if disk.target.isSome then (.error (.system "EEXIST"), disk)
    else (.ok (), { disk with target := some (.file []) })
  | .isFile, disk =>
    (.ok (match disk.target with | some (.file _) => true | _ => false), disk)
  | .copy, disk =>
    match disk.temporary with
    | none => (.error (.system "ENOENT"), disk)
    | some bytes => (.ok (), { disk with target := some (.file bytes) })
  | .closeFile, disk => (.ok (), disk)
  | .removeTemporary, disk => (.ok (), { disk with temporary := none })
  | .close, disk => (.ok (), disk)

/-- What a transfer that breaks off leaves; nothing else leaves anything of itself. -/
def performPartly (bytes : Nat) : Call → Disk → Disk
  | .pipeline source, disk =>
    if disk.temporary.isSome then disk
    else { disk with temporary := some ((limited MAX_RAW_BYTES 0 source.chunks).1.take bytes) }
  | .copy, disk =>
    match disk.temporary with
    | none => disk
    | some whole => { disk with target := some (.file (whole.take bytes)) }
  | _, disk => disk

def answer (outcome : Outcome) (call : Call) (disk : Disk) : Except Failure call.Reply × Disk :=
  match outcome with
  | .done => perform call disk
  | .failed failure => (.error failure, disk)
  | .brokeOff bytes failure => (.error failure, performPartly bytes call disk)

abbrev machine : Machine interface where
  World := Disk
  Outcome := Outcome
  Actor := Unit
  answer _ := answer

/-- An outcome for every awaited step. -/
abbrev Faults : Type := List Label → Outcome

/-! ### The code -/

/-- What an open of a located name is refused with. -/
def openFailure : Failure → Failure
  | .system "ELOOP" => .path "the path changed while it was being opened: try again"
  | .system "ENXIO" => .path "not a regular file"
  | failure => failure

/-- What was opened is closed again, whatever becomes of that, and the upload refused. -/
def refuseOpened (failure : Failure) : UploadCode Unit := do
  let _ ← attempt (request .closeRefused .closeFile)
  throw failure

/-- What was opened has to be a file. -/
def askOpened : UploadCode Unit := do
  match ← attempt (request .askOpened .isFile) with
  | .ok true => pure ()
  | .ok false => refuseOpened (.path "not a regular file")
  | .error failure => refuseOpened failure

/-- A new file opened at the name, asked what it is before anything is written to it. -/
def openFile : UploadCode Unit := do
  match ← attempt (request .openNew .openNew) with
  | .ok _ => askOpened
  | .error failure => throw (openFailure failure)

/-- The old file removed, if there is one. -/
def removeOld : UploadCode Unit := do
  match ← attempt (request .removeOld .unlink) with
  | .ok _ => pure ()
  | .error failure => if failure = .system "ENOENT" then pure () else throw failure

/-- The old file's place taken by a copy: for a name on another file system. -/
def copyAcross : UploadCode (Option Unit) := do
  removeOld
  openFile
  match ← attempt (request .copy .copy) with
  -- Nothing lets go of the file that was written, and closing it waits for that.
  | .ok _ => pure none
  | .error failure => do
    request .closeCopy .closeFile
    throw failure

/-- The temporary file put in the name's place. -/
def place : UploadCode (Option Unit) := do
  match ← attempt (request .rename .rename) with
  | .ok _ => pure (some ())
  | .error failure => if failure = .system "EXDEV" then copyAcross else throw failure

/-- The stream written, and put in its place when it is as long as was promised. -/
def taken (source : Source) (expected : Option Nat) : UploadCode (Option Unit) := do
  let written ← request .fill (.pipeline source)
  match expected.filter fun promised => promised ≠ written with
  | some promised =>
    throw (.path (s!"the upload ended at {written} of {promised} bytes, so nothing was " ++
      "written: something between the browser and this node cut it short"))
  | none => place

/-- The temporary file removed when the upload fails. -/
def cleaned {Result : Type} (code : UploadCode Result) : UploadCode Result := do
  match ← attempt code with
  | .ok result => pure result
  | .error failure =>
    request .cleanUp .removeTemporary
    throw failure

/-- What is found at the name after the upload. -/
def entryFrom : Option Held → UploadCode (Option Held)
  | some info => pure (some info)
  | none => throw (.notFound "the file was removed as it was written")

/-- The upload to a name that no directory has. -/
def upload (source : Source) (expected : Option Nat) : UploadCode (Option Held) := do
  request .makeUploads .mkdir
  match ← cleaned (taken source expected) with
  | none => pure none
  | some _ => do
    let info ← request .lookAgain .lstat
    entryFrom info

/-- The upload in the directory that was located. -/
def inLocated (source : Source) (expected : Option Nat) (name : String) :
    UploadCode (Option Held) :=
  if name = "" then throw (.path "a file needs a name")
  else do
    let there ← request .look .lstat
    if there = some .directory then throw (.path "that is a directory")
    else upload source expected

/-- The directory closed at the end, when it comes to one. -/
def closed (ended : Except Failure (Option Held)) : UploadCode (Option Held) :=
  match ended with
  | .ok none => pure none
  | ended => do
    request .close .close
    settled ended

/-- What stands at the name once the upload has returned, and nothing where it waits for good. -/
def writeFromStreamBeneath (source : Source) (expected : Option Nat) :
    UploadCode (Option Held) := do
  let name ← request .locate .locate
  let ended ← attempt (inLocated source expected name)
  closed ended

/-! ### All or nothing -/

/-- The disk as an upload begins: nobody has the temporary file's name. -/
def before (name : String) (target : Option Held) : Disk := ⟨name, target, none⟩

/-- How an upload ends, and the disk then. -/
def ran (faults : Faults) (source : Source) (expected : Option Nat) (name : String)
    (target : Option Held) : Except Failure (Option Held) × Disk :=
  let run := (writeFromStreamBeneath source expected).run machine () faults () (before name target)
  (run.1.1, run.2)

/-- The steps of an upload that fail, each with the disk after it. -/
def failed (faults : Faults) (source : Source) (expected : Option Nat) (name : String)
    (target : Option Held) : List (List Label × Disk) :=
  Program.failures machine () faults (writeFromStreamBeneath source expected ())
    (before name target)

/-- An upload throws or returns; one that throws leaves what was there; one that returns puts
exactly the stream's bytes there; and the temporary file is left by neither. -/
structure AllOrNothing (faults : Faults) (source : Source) (expected : Option Nat) (name : String)
    (target : Option Held) : Prop where
  ends : (ran faults source expected name target).1 ≠ .ok none
  threw : ∀ failure, (ran faults source expected name target).1 = .error failure →
    (ran faults source expected name target).2.target = target
  returned : ∀ info, (ran faults source expected name target).1 = .ok (some info) →
    source.breaks = none ∧
      (ran faults source expected name target).2.target = some (.file source.chunks.flatten)
  tidy : (ran faults source expected name target).2.temporary = none

/-- The failure a call is answered with, where it is. -/
def Outcome.failure? : Outcome → Option Failure
  | .done => none
  | .failed failure => some failure
  | .brokeOff _ failure => some failure

/-- The stream is taken in whole: it does not break, stays within the limit and is as long as was
promised. -/
structure TakenWhole (faults : Faults) (source : Source) (expected : Option Nat) : Prop where
  filled : faults [.fill] = .done
  within : (limited MAX_RAW_BYTES 0 source.chunks).2 = false
  whole : source.breaks = none
  promised : ∀ promised, expected = some promised → promised = source.chunks.flatten.length

/-- The rename reports another file system, the old file is removed or was not there, and the copy
is opened and made. -/
structure CopyMade (faults : Faults) (target : Option Held) : Prop where
  across : (faults [.rename]).failure? = some (.system "EXDEV")
  removed : faults [.removeOld] = .done ∨
    (target = none ∧ (faults [.removeOld]).failure? = some (.system "ENOENT"))
  opened : faults [.openNew] = .done
  asked : faults [.askOpened] = .done
  copied : faults [.copy] = .done

/-- The upload comes to a copy across file systems, and the copy is made. -/
structure Copies (faults : Faults) (source : Source) (expected : Option Nat) (name : String)
    (target : Option Held) : Prop where
  located : faults [.locate] = .done
  named : name ≠ ""
  looked : faults [.look] = .done
  noDirectory : target ≠ some .directory
  uploads : faults [.makeUploads] = .done
  taken : TakenWhole faults source expected
  made : CopyMade faults target

/-- Nothing fails once something else stands at the name than did before, and the removal of the
temporary file after a failure does not fail with the file there. -/
structure FailsInTime (faults : Faults) (source : Source) (expected : Option Nat) (name : String)
    (target : Option Held) : Prop where
  untouched : ∀ failure ∈ failed faults source expected name target, failure.2.target = target
  cleaned : ∀ failure ∈ failed faults source expected name target, failure.1 = [.cleanUp] →
    failure.2.temporary = none

/-! ### What the steps leave -/

section

variable {Result : Type} {target : Option Held} {goal : Result → Disk → Prop}

/-- How a part of an upload goes: where it goes well, nothing failed with something else at the
name; where it does not, something else stands at the name exactly if something failed so. The
removal after a failure is not one of its steps. -/
structure Went (target : Option Held) (goal : Result → Disk → Prop)
    (outcome : Except Failure Result) (disk : Disk) (failed : List (List Label × Disk)) :
    Prop where
  other : ∀ failure ∈ failed, failure.1 ≠ [.cleanUp]
  well : ∀ result, outcome = .ok result →
    goal result disk ∧ ∀ failure ∈ failed, failure.2.target = target
  badly : ∀ failure, outcome = .error failure →
    (disk.target = target ↔ ∀ failure ∈ failed, failure.2.target = target)

variable {failure : Failure} {outcome : Except Failure Result} {failed : List (List Label × Disk)}

theorem Went.append {disk : Disk} {early late : List (List Label × Disk)}
    (other : ∀ failure ∈ early, failure.1 ≠ [.cleanUp])
    (fits : ∀ failure ∈ early, failure.2.target = target)
    (went : Went target goal outcome disk late) :
    Went target goal outcome disk (early ++ late) where
  other failure member := (mem_append.mp member).elim (other failure) (went.other failure)
  well result ended := ⟨(went.well result ended).1, fun failure member =>
    (mem_append.mp member).elim (fits failure) ((went.well result ended).2 failure)⟩
  badly failure ended := (went.badly failure ended).trans
    ⟨fun late_ failure member =>
      (mem_append.mp member).elim (fits failure) (late_ failure),
      fun all failure member => all failure (mem_append_right early member)⟩

variable {faults : Faults} {disk : Disk}

theorem went_ok {result : Result} (holds : goal result disk) :
    Went target goal (.ok result) disk [] :=
  ⟨fun _ member => absurd member not_mem_nil,
    fun _ ended => ⟨Except.ok.inj ended ▸ holds, fun _ member => absurd member not_mem_nil⟩,
    nofun⟩

theorem went_error (other : ∀ failure ∈ failed, failure.1 ≠ [.cleanUp])
    (same : disk.target = target ↔ ∀ failure ∈ failed, failure.2.target = target) :
    Went target goal (.error failure) disk failed :=
  ⟨other, nofun, fun _ _ => same⟩

/-- A step that fails leaves what it leaves. -/
theorem went_failed {label : Label} (other : label ≠ .cleanUp) :
    Went target goal (.error failure) disk [([label], disk)] := by
  refine went_error (fun failure member => ?_) ?_
  · rw [mem_singleton.mp member]
    exact fun same => other (cons.inj same).1
  · rw [forall_mem_singleton]

/-- Nothing fails where the name is as it was. -/
theorem went_thrown (same : disk.target = target) :
    Went target goal (.error failure) disk [] :=
  went_error (fun _ member => absurd member not_mem_nil)
    ⟨fun _ _ member => absurd member not_mem_nil, fun _ => same⟩

/-- The code goes as described, from this disk. -/
def Goes (faults : Faults) (target : Option Held) (goal : Result → Disk → Prop)
    (code : UploadCode Result) (disk : Disk) : Prop :=
  Settles machine () faults code () disk fun outcome _ later failed =>
    Went target goal outcome later failed

/-- A call by itself. -/
theorem goes_request {label : Label} {call : Call} (other : label ≠ .cleanUp)
    {goal : call.Reply → Disk → Prop}
    (done : ∀ reply later, answer (faults [label]) call disk = (.ok reply, later) →
      goal reply later) :
    Goes faults target goal (request label call) disk :=
  settles_call (fun reply later answered => went_ok (done reply later answered))
    fun _ _ _ => went_failed other

/-- One part after another. -/
theorem goes_bind {First : Type} {code : UploadCode First} {rest : First → UploadCode Result}
    {between : First → Disk → Prop} (first : Goes faults target between code disk)
    (next : ∀ result later, between result later →
      Goes faults target goal (rest result) later) :
    Goes faults target goal (code >>= rest) disk := by
  refine settles_bind first (fun result _ later failed went => ?_)
    fun failure _ later failed went => went_error went.other (went.badly failure rfl)
  have well := went.well result rfl
  exact settles_mono (next result later well.1) fun outcome _ last more ended =>
    ended.append went.other well.2

/-! ### The copy across file systems -/

/-- The calls that change neither the name nor the temporary file. -/
def still : Call → Bool
  | .locate | .lstat | .mkdir | .isFile | .closeFile | .close => true
  | _ => false

theorem eq_of_still {outcome : Outcome} {call : Call} {ended : Except Failure call.Reply}
    {later : Disk} (unmoved : still call = true)
    (answered : answer outcome call disk = (ended, later)) : later = disk := by
  have same : (answer outcome call disk).2 = disk := by
    cases call <;> first
      | exact absurd unmoved Bool.false_ne_true
      | (cases outcome <;> rfl)
  rw [answered] at same
  exact same

/-- A call that is answered was done. -/
theorem done_of_ok {outcome : Outcome} {call : Call} {reply : call.Reply} {later : Disk}
    (answered : answer outcome call disk = (.ok reply, later)) :
    outcome = .done ∧ perform call disk = (.ok reply, later) := by
  cases outcome with
  | done => exact ⟨rfl, answered⟩
  | failed failure => exact absurd (Prod.mk.inj answered).1 nofun
  | brokeOff bytes failure => exact absurd (Prod.mk.inj answered).1 nofun

/-- A call that moves nothing is answered with its failure or does what it does. -/
theorem failure_or_performed {outcome : Outcome} {call : Call} {later : Disk}
    (answered : answer outcome call disk = (.error failure, later)) :
    outcome.failure? = some failure ∨
      (outcome = .done ∧ perform call disk = (.error failure, later)) := by
  cases outcome with
  | done => exact .inr ⟨rfl, answered⟩
  | failed other => exact .inl (congrArg some (Except.error.inj (Prod.mk.inj answered).1))
  | brokeOff bytes other => exact .inl (congrArg some (Except.error.inj (Prod.mk.inj answered).1))

/-- A call that fails and leaves nothing of itself, also where it breaks off, changes nothing. -/
theorem eq_of_failed {outcome : Outcome} {call : Call} {later : Disk}
    (whole : ∀ bytes, performPartly bytes call disk = disk)
    (refused : ∀ later, perform call disk = (.error failure, later) → later = disk)
    (answered : answer outcome call disk = (.error failure, later)) : later = disk := by
  cases outcome with
  | done => exact refused later answered
  | failed other => exact (Prod.mk.inj answered).2.symm
  | brokeOff count other => exact (Prod.mk.inj answered).2.symm.trans (whole count)

theorem settles_refuseOpened (failure : Failure) :
    Settles machine () faults (refuseOpened failure) () disk fun outcome _ later failed =>
      outcome = .error failure ∧ later = disk ∧
        ∀ failure ∈ failed, failure = ([.closeRefused], disk) := by
  refine settles_attempt_call (fun reply later answered => ?_) fun failure later answered => ?_
  · exact settles_throw ⟨rfl, eq_of_still rfl answered, fun _ member => absurd member not_mem_nil⟩
  · obtain rfl := eq_of_still rfl answered
    exact settles_throw ⟨rfl, rfl, fun _ member => mem_singleton.mp member⟩

/-- A file that was opened is a file. -/
theorem goes_askOpened {bytes : Bytes} (opened : disk.target = some (.file bytes)) :
    Goes faults target (fun _ later => later = disk ∧ faults [.askOpened] = .done) askOpened
      disk := by
  refine settles_attempt_call (fun reply later answered => ?_) fun failure later answered => ?_
  · obtain ⟨outcome, done⟩ := done_of_ok answered
    rw [perform, opened] at done
    obtain rfl := Except.ok.inj (Prod.mk.inj done).1
    exact settles_pure (went_ok ⟨(Prod.mk.inj done).2.symm, outcome⟩)
  · obtain rfl := eq_of_still rfl answered
    refine settles_mono (settles_refuseOpened failure) ?_
    rintro outcome _ last more ⟨rfl, rfl, all⟩
    refine went_error (forall_mem_cons.mpr ⟨nofun, fun other member => ?_⟩) ?_
    · rw [all other member]
      exact nofun
    · rw [forall_mem_cons]
      refine ⟨fun same => ⟨same, fun other member => ?_⟩, fun both => both.1⟩
      rw [all other member]
      exact same

theorem goes_openFile :
    Goes faults target
      (fun _ later => later = { disk with target := some (.file []) } ∧ disk.target = none ∧
        faults [.openNew] = .done ∧ faults [.askOpened] = .done)
      openFile disk := by
  refine settles_attempt_call (fun reply later answered => ?_) fun failure later _ =>
    settles_throw (went_failed nofun)
  obtain ⟨outcome, done⟩ := done_of_ok answered
  rw [perform] at done
  split at done
  · exact absurd (Prod.mk.inj done).1 nofun
  case isFalse free =>
    obtain rfl := (Prod.mk.inj done).2
    have missing : disk.target = none := Option.not_isSome_iff_eq_none.mp free
    refine settles_mono (goes_askOpened rfl) fun ended _ last failed went =>
      ⟨went.other, fun result same => ⟨?_, (went.well result same).2⟩, went.badly⟩
    exact ⟨(went.well result same).1.1, missing, outcome, (went.well result same).1.2⟩

theorem goes_removeOld (same : disk.target = target) :
    Goes faults target
      (fun _ later => later.temporary = disk.temporary ∧ (faults [.removeOld] = .done ∨
        (later.target = target ∧ (faults [.removeOld]).failure? = some (.system "ENOENT"))))
      removeOld disk := by
  refine settles_attempt_call (fun reply later answered => settles_pure (went_ok ?_))
    fun failure later answered => ?_
  · obtain ⟨outcome, done⟩ := done_of_ok answered
    rw [perform] at done
    split at done
    · exact absurd (Prod.mk.inj done).1 nofun
    · exact absurd (Prod.mk.inj done).1 nofun
    · obtain rfl := (Prod.mk.inj done).2
      exact ⟨rfl, .inl outcome⟩
  · obtain rfl : later = disk := by
      refine eq_of_failed (fun _ => rfl) (fun later done => ?_) answered
      rw [perform] at done
      split at done
      · exact (Prod.mk.inj done).2.symm
      · exact (Prod.mk.inj done).2.symm
      · exact absurd (Prod.mk.inj done).1 nofun
    have early : ∀ failure ∈ [(([.removeOld] : List Label), later)],
        failure.1 ≠ [.cleanUp] ∧ failure.2.target = target := by
      rw [forall_mem_singleton]
      exact ⟨nofun, same⟩
    have why := (failure_or_performed answered).symm.imp And.left id
    dsimp only
    split
    case isTrue missing =>
      rw [missing] at why
      exact settles_pure (Went.append (fun failure member => (early failure member).1)
        (fun failure member => (early failure member).2)
        (went_ok ⟨rfl, why.imp_right fun fails => ⟨same, fails⟩⟩))
    · exact settles_throw (went_failed nofun)

/-- The copy: where it is made the upload waits, and where it fails the file is closed behind it. -/
theorem goes_copy :
    Goes faults target (fun (ended : Option Unit) _ => ended = none ∧ faults [.copy] = .done)
      (attempt (request .copy .copy) >>= fun ended =>
        match ended with
        | .ok _ => pure none
        | .error failure => do
          request .closeCopy .closeFile
          throw failure) disk := by
  refine settles_attempt_call (fun reply later answered => settles_pure (went_ok ⟨rfl, ?_⟩))
    fun failure later answered => ?_
  · exact (done_of_ok answered).1
  · have ends {failure : Failure} {more : List (List Label × Disk)}
        (all : ∀ failure ∈ more, failure = ([.closeCopy], later)) :
        Went target (fun (ended : Option Unit) _ => ended = none ∧ faults [.copy] = .done)
          (.error failure) later (([.copy], later) :: more) := by
      refine went_error (forall_mem_cons.mpr ⟨nofun, fun other member => ?_⟩) ?_
      · rw [all other member]
        exact nofun
      · rw [forall_mem_cons]
        refine ⟨fun same => ⟨same, fun other member => ?_⟩, fun both => both.1⟩
        rw [all other member]
        exact same
    refine settles_call_bind (fun reply last answered => ?_) fun failure last answered => ?_
    · obtain rfl := eq_of_still rfl answered
      exact settles_throw (ends fun _ member => absurd member not_mem_nil)
    · obtain rfl := eq_of_still rfl answered
      exact ends fun _ member => mem_singleton.mp member

theorem goes_copyAcross (same : disk.target = target)
    (across : (faults [.rename]).failure? = some (.system "EXDEV")) :
    Goes faults target (fun ended _ => ended = none ∧ CopyMade faults target) copyAcross
      disk := by
  refine goes_bind (goes_removeOld same) fun _ later kept => ?_
  refine goes_bind goes_openFile fun _ last opened => ?_
  refine settles_mono goes_copy fun outcome _ copied failed went =>
    ⟨went.other, fun result ended => ⟨⟨(went.well result ended).1.1, ?_⟩,
      (went.well result ended).2⟩, went.badly⟩
  exact
    { across
      removed := kept.2.imp_right fun missing => ⟨missing.1.symm.trans opened.2.1, missing.2⟩
      opened := opened.2.2.1
      asked := opened.2.2.2
      copied := (went.well result ended).1.2 }

/-- What a part of an upload comes to: it goes on from a disk that holds as described, or it waits
for good where it is said to. -/
def Comes (holds : Disk → Prop) (waits : Prop) {Result : Type} (ended : Option Result)
    (later : Disk) : Prop :=
  (ended ≠ none → holds later) ∧ (ended = none → waits)

theorem goes_place {bytes : Bytes} (same : disk.target = target)
    (whole : disk.temporary = some bytes) :
    Goes faults target
      (Comes (fun later => later.target = some (.file bytes) ∧ later.temporary = none)
        (CopyMade faults target))
      place disk := by
  refine settles_attempt_call (fun reply later answered => settles_pure (went_ok ?_))
    fun failure later answered => ?_
  · have done := (done_of_ok answered).2
    rw [perform, whole] at done
    dsimp only at done
    split at done
    · exact absurd (Prod.mk.inj done).1 nofun
    · obtain rfl := (Prod.mk.inj done).2
      exact ⟨fun _ => ⟨rfl, rfl⟩, nofun⟩
  · have refused {other : Failure} {last : Disk}
        (done : perform .rename disk = (.error other, last)) :
        last = disk ∧ other ≠ .system "EXDEV" := by
      rw [perform, whole] at done
      dsimp only at done
      split at done
      · obtain rfl := Except.error.inj (Prod.mk.inj done).1
        exact ⟨(Prod.mk.inj done).2.symm, by decide⟩
      · exact absurd (Prod.mk.inj done).1 nofun
    obtain rfl : later = disk :=
      eq_of_failed (fun _ => rfl) (fun _ done => (refused done).1) answered
    have across (same : failure = .system "EXDEV") :
        (faults [.rename]).failure? = some (.system "EXDEV") :=
      (failure_or_performed answered).elim (fun fails => fails.trans (congrArg some same))
        fun done => absurd same (refused done.2).2
    have early : ∀ failure ∈ [(([.rename] : List Label), later)],
        failure.1 ≠ [.cleanUp] ∧ failure.2.target = target := by
      rw [forall_mem_singleton]
      exact ⟨nofun, same⟩
    dsimp only
    split
    case isTrue crosses =>
      refine settles_mono (goes_copyAcross same (across crosses)) fun outcome _ last more went =>
        Went.append (fun failure member => (early failure member).1)
          (fun failure member => (early failure member).2)
          ⟨went.other, fun result ended => ⟨⟨fun goesOn => ?_, fun _ => ?_⟩,
            (went.well result ended).2⟩, went.badly⟩
      · exact absurd (went.well result ended).1.1 goesOn
      · exact (went.well result ended).1.2
    · exact settles_throw (went_failed (by decide))

/-! ### The stream and the temporary file -/

/-- A stream within the limit passes whole. -/
theorem limited_whole {most : Nat} {chunks : List Bytes} {written : Nat}
    (within : (limited most written chunks).2 = false) :
    (limited most written chunks).1 = chunks.flatten := by
  induction chunks generalizing written with
  | nil => rfl
  | cons chunk rest inductionHypothesis =>
    unfold limited at within ⊢
    split
    case isTrue over_ =>
      rw [if_pos over_] at within
      exact absurd within Bool.true_eq_false.mp
    case isFalse room =>
      rw [if_neg room] at within
      rw [flatten_cons, ← inductionHypothesis within]

/-- The stream was taken whole: what stands at the name are its bytes. -/
def Holds (source : Source) (disk : Disk) : Prop :=
  source.breaks = none ∧ disk.target = some (.file source.chunks.flatten)

theorem goes_taken (source : Source) (expected : Option Nat) (same : disk.target = target)
    (fresh : disk.temporary = none) :
    Goes faults target
      (Comes (fun later => Holds source later ∧ later.temporary = none)
        (TakenWhole faults source expected ∧ CopyMade faults target))
      (taken source expected) disk := by
  have fill : Goes faults target
      (fun written later => faults [.fill] = .done ∧
        (limited MAX_RAW_BYTES 0 source.chunks).2 = false ∧ source.breaks = none ∧
          written = source.chunks.flatten.length ∧ later.target = target ∧
            later.temporary = some source.chunks.flatten)
      (request .fill (.pipeline source)) disk := by
    refine goes_request (by decide) fun reply later answered => ?_
    obtain ⟨outcome, done⟩ := done_of_ok answered
    rw [perform, fresh, if_neg (by decide), filled] at done
    split at done
    · exact absurd (Prod.mk.inj done).1 nofun
    case isFalse within =>
      split at done
      · exact absurd (Prod.mk.inj done).1 nofun
      case h_2 whole =>
        have all := limited_whole (eq_false_of_ne_true within)
        obtain rfl := (Prod.mk.inj done).2
        obtain rfl := Except.ok.inj (Prod.mk.inj done).1
        exact ⟨outcome, eq_false_of_ne_true within, whole, congrArg List.length all, same,
          congrArg some all⟩
  refine goes_bind fill fun written later passed => ?_
  obtain ⟨filled, within, whole, count, kept, temporary⟩ := passed
  split
  · exact settles_throw (went_thrown kept)
  case h_2 right =>
    have promised : ∀ promised, expected = some promised →
        promised = source.chunks.flatten.length := by
      intro promised is_
      refine Classical.byContradiction fun other => ?_
      have refused := Option.filter_eq_none_iff.mp right promised is_
      rw [count] at refused
      exact refused (decide_eq_true other)
    refine settles_mono (goes_place kept temporary) fun outcome _ last failed went =>
      ⟨went.other, fun result ended => ⟨⟨fun goesOn => ?_, fun waits => ?_⟩,
        (went.well result ended).2⟩, went.badly⟩
    · have placed := (went.well result ended).1.1 goesOn
      exact ⟨⟨whole, placed.1⟩, placed.2⟩
    · exact ⟨⟨filled, within, whole, promised⟩, (went.well result ended).1.2 waits⟩

/-- How an upload goes as a whole: as its parts do, and the temporary file is left exactly if its
removal failed with the file there. -/
structure Left (target : Option Held) (goal : Result → Disk → Prop)
    (outcome : Except Failure Result) (disk : Disk) (failed : List (List Label × Disk)) :
    Prop where
  well : ∀ result, outcome = .ok result →
    goal result disk ∧ (∀ failure ∈ failed, failure.2.target = target) ∧
      ∀ failure ∈ failed, failure.1 = [.cleanUp] → failure.2.temporary = none
  badly : ∀ failure, outcome = .error failure →
    (disk.target = target ↔ ∀ failure ∈ failed, failure.2.target = target) ∧
      (disk.temporary = none ↔
        ∀ failure ∈ failed, failure.1 = [.cleanUp] → failure.2.temporary = none)

/-- A part that leaves no temporary file where it throws. -/
theorem Went.left (went : Went target goal outcome disk failed)
    (gone : ∀ failure, outcome = .error failure → disk.temporary = none) :
    Left target goal outcome disk failed where
  well result ended := ⟨(went.well result ended).1, (went.well result ended).2,
    fun failure member same => absurd same (went.other failure member)⟩
  badly failure ended := ⟨went.badly failure ended,
    fun _ failure member same => absurd same (went.other failure member),
    fun _ => gone failure ended⟩

theorem Left.append {early late : List (List Label × Disk)}
    (fits : ∀ failure ∈ early, failure.2.target = target)
    (gone : ∀ failure ∈ early, failure.1 = [.cleanUp] → failure.2.temporary = none)
    (left : Left target goal outcome disk late) :
    Left target goal outcome disk (early ++ late) where
  well result ended := by
    obtain ⟨holds, late_, tidy⟩ := left.well result ended
    exact ⟨holds, forall_mem_append.mpr ⟨fits, late_⟩,
      forall_mem_append.mpr ⟨gone, tidy⟩⟩
  badly failure ended := by
    obtain ⟨same, tidy⟩ := left.badly failure ended
    rw [forall_mem_append, forall_mem_append]
    exact ⟨same.trans ⟨fun late_ => ⟨fits, late_⟩, fun both => both.2⟩,
      tidy.trans ⟨fun late_ => ⟨gone, late_⟩, fun both => both.2⟩⟩

/-- A last step that fails and leaves the disk as it is. -/
theorem Left.failed_last {label : Label} (left : Left target goal outcome disk failed)
    (gone : ∀ result, outcome = .ok result → disk.temporary = none) (other : label ≠ .cleanUp) :
    Left target goal (.error failure) disk (failed ++ [([label], disk)]) := by
  refine ⟨nofun, fun _ _ => ?_⟩
  have notCleaning : ∀ failure ∈ [([label], disk)], failure.1 = [.cleanUp] →
      failure.2.temporary = none := by
    rw [forall_mem_singleton]
    exact fun same => absurd (cons.inj same).1 other
  have early : (disk.target = target ↔ ∀ failure ∈ failed, failure.2.target = target) ∨
      ∀ failure ∈ failed, failure.2.target = target := by
    cases outcome with
    | ok result => exact .inr (left.well result rfl).2.1
    | error failure => exact .inl (left.badly failure rfl).1
  have tidy : disk.temporary = none ↔
      ∀ failure ∈ failed, failure.1 = [.cleanUp] → failure.2.temporary = none := by
    cases outcome with
    | ok result => exact ⟨fun _ => (left.well result rfl).2.2, fun _ => gone result rfl⟩
    | error failure => exact (left.badly failure rfl).2
  rw [forall_mem_append, forall_mem_append, forall_mem_singleton]
  refine ⟨⟨fun same => ⟨?_, same⟩, fun both => both.2⟩,
    tidy.trans ⟨fun early => ⟨early, notCleaning⟩, fun both => both.1⟩⟩
  rcases early with iff_ | all
  · exact iff_.mp same
  · exact all

/-- The code leaves the disk as described. -/
def Leaves (faults : Faults) (target : Option Held) (goal : Result → Disk → Prop)
    (code : UploadCode Result) (disk : Disk) : Prop :=
  Settles machine () faults code () disk fun outcome _ later failed =>
    Left target goal outcome later failed

theorem leaves_bind {First : Type} {code : UploadCode First} {rest : First → UploadCode Result}
    {between : First → Disk → Prop} (first : Leaves faults target between code disk)
    (next : ∀ result later, between result later → Leaves faults target goal (rest result) later) :
    Leaves faults target goal (code >>= rest) disk := by
  refine settles_bind first (fun result _ later failed left => ?_)
    fun failure _ later failed left => ⟨nofun,
      fun _ _ => left.badly failure rfl⟩
  obtain ⟨holds, fits, tidy⟩ := left.well result rfl
  exact settles_mono (next result later holds) fun outcome _ last more ended =>
    ended.append fits tidy

/-- A call that leaves the disk as it is. -/
theorem leaves_still (label : Label) (call : Call) (other : label ≠ .cleanUp)
    (unmoved : still call = true) (gone : disk.temporary = none) :
    Leaves faults target
      (fun reply later => later = disk ∧ faults [label] = .done ∧
        perform call disk = (.ok reply, disk))
      (request label call) disk := by
  refine settles_call (fun reply later answered => ?_) fun failure later answered => ?_
  · obtain rfl := eq_of_still unmoved answered
    obtain ⟨outcome, done⟩ := done_of_ok answered
    exact (went_ok ⟨rfl, outcome, done⟩).left nofun
  · obtain rfl := eq_of_still unmoved answered
    exact (went_failed other).left fun _ _ => gone

/-- The removal after a failure: done, the temporary file is gone; failed, it is as it was. -/
theorem settles_removal (failure : Failure) (went : Went target goal (.error failure) disk failed) :
    Settles machine () faults
      (request .cleanUp .removeTemporary >>= fun _ => (throw failure : UploadCode Result)) () disk
      fun outcome _ later more => Left target goal outcome later (failed ++ more) := by
  have kept := went.badly failure rfl
  have earlier : ∀ failure ∈ failed, failure.1 = [.cleanUp] → failure.2.temporary = none :=
    fun failure member same => absurd same (went.other failure member)
  refine settles_call_bind (fun reply later answered => ?_) fun thrown later answered => ?_
  · obtain rfl := (Prod.mk.inj (done_of_ok answered).2).2
    refine settles_throw ⟨nofun, fun _ _ => ?_⟩
    rw [append_nil]
    exact ⟨kept, fun _ => earlier, fun _ => rfl⟩
  · obtain rfl : later = disk := by
      refine eq_of_failed (fun _ => rfl) (fun later done => ?_) answered
      rw [perform] at done
      exact absurd (Prod.mk.inj done).1 nofun
    refine ⟨nofun, fun _ _ => ?_⟩
    rw [forall_mem_append, forall_mem_append, forall_mem_singleton, forall_mem_singleton]
    exact ⟨⟨fun same => ⟨kept.mp same, same⟩, fun both => both.2⟩,
      fun gone => ⟨earlier, fun _ => gone⟩, fun both => both.2 rfl⟩

theorem leaves_cleaned {code : UploadCode Result} (goes : Goes faults target goal code disk) :
    Leaves faults target goal (cleaned code) disk := by
  refine settles_attempt_bind goes fun ended _ later failed went => ?_
  cases ended with
  | ok result =>
    refine settles_pure ?_
    rw [append_nil]
    exact went.left nofun
  | error failure => exact settles_removal failure went

/-! ### The upload -/

theorem leaves_upload (source : Source) (expected : Option Nat) (same : disk.target = target)
    (fresh : disk.temporary = none) :
    Leaves faults target
      (Comes (fun later => Holds source later ∧ later.temporary = none)
        (faults [.makeUploads] = .done ∧ TakenWhole faults source expected ∧
          CopyMade faults target))
      (upload source expected) disk := by
  refine leaves_bind (leaves_still .makeUploads .mkdir (by decide) rfl fresh)
    fun _ later made => ?_
  obtain ⟨rfl, uploads, -⟩ := made
  refine leaves_bind (leaves_cleaned (goes_taken source expected same fresh))
    fun ended placed comes => ?_
  cases ended with
  | none =>
    exact settles_pure ((went_ok ⟨fun goesOn => absurd rfl goesOn,
      fun _ => ⟨uploads, comes.2 rfl⟩⟩).left nofun)
  | some done =>
    obtain ⟨holds, gone⟩ := comes.1 nofun
    refine leaves_bind (leaves_still .lookAgain .lstat (by decide) rfl gone)
      fun info last seen => ?_
    obtain ⟨rfl, -, found⟩ := seen
    have there : info = some (.file source.chunks.flatten) :=
      (Except.ok.inj (Prod.mk.inj found).1).symm.trans holds.2
    rw [there]
    exact settles_pure ((went_ok ⟨fun _ => ⟨holds, gone⟩, nofun⟩).left
      nofun)

theorem leaves_inLocated (source : Source) (expected : Option Nat) (name : String)
    (same : disk.target = target) (fresh : disk.temporary = none)
    (located : faults [.locate] = .done) :
    Leaves faults target
      (Comes (fun later => Holds source later ∧ later.temporary = none)
        (Copies faults source expected name target))
      (inLocated source expected name) disk := by
  unfold inLocated
  split
  · exact settles_throw ((went_thrown same).left fun _ _ => fresh)
  case isFalse named =>
    refine leaves_bind (leaves_still .look .lstat (by decide) rfl fresh)
      fun there later seen => ?_
    obtain ⟨rfl, looked, found⟩ := seen
    have stands : there = target :=
      (Except.ok.inj (Prod.mk.inj found).1).symm.trans same
    split
    · exact settles_throw ((went_thrown same).left fun _ _ => fresh)
    case isFalse noDirectory =>
      refine settles_mono (leaves_upload source expected same fresh) fun outcome _ last failed left =>
        ⟨fun result ended => ⟨⟨(left.well result ended).1.1, fun waits => ?_⟩,
          (left.well result ended).2⟩, left.badly⟩
      obtain ⟨uploads, taken, made⟩ := (left.well result ended).1.2 waits
      exact ⟨located, named, looked, stands ▸ noDirectory, uploads, taken, made⟩

theorem leaves_writeFromStreamBeneath (source : Source) (expected : Option Nat)
    (same : disk.target = target) (fresh : disk.temporary = none) :
    Leaves faults target
      (Comes (fun later => Holds source later ∧ later.temporary = none)
        (Copies faults source expected disk.name target))
      (writeFromStreamBeneath source expected) disk := by
  refine leaves_bind (leaves_still .locate .locate (by decide) rfl fresh)
    fun name later found => ?_
  obtain ⟨rfl, located, names⟩ := found
  obtain rfl := Except.ok.inj (Prod.mk.inj names).1
  refine settles_attempt_bind (leaves_inLocated source expected later.name same fresh located)
    fun result _ last failed left => ?_
  have closes (gone : ∀ ended, result = .ok ended → last.temporary = none) :
      Settles machine () faults (request .close .close >>= fun _ => settled result) () last
        fun outcome _ end_ more => Left target
          (Comes (fun later => Holds source later ∧ later.temporary = none)
            (Copies faults source expected later.name target)) outcome end_ (failed ++ more) := by
    refine settles_call_bind (fun reply end_ answered => ?_) fun failure end_ answered => ?_
    · obtain rfl := eq_of_still rfl answered
      cases result with
      | ok ended => exact settles_pure (by simpa using left)
      | error failure => exact settles_throw (by simpa using left)
    · obtain rfl := eq_of_still rfl answered
      exact left.failed_last gone (by decide)
  cases result with
  | error failure => exact closes nofun
  | ok ended =>
    cases ended with
    | none => exact settles_pure (by simpa using left)
    | some info =>
      refine closes fun _ _ => ?_
      exact ((left.well (some info) rfl).1.1 nofun).2

end

/-! ### The upload that waits for good -/

section

variable {faults : Faults} {source : Source} {expected : Option Nat} {target : Option Held}
  {disk : Disk}

theorem run_request_done {label : Label} {call : Call} {reply : call.Reply} {later : Disk}
    (outcome : faults [label] = .done) (done : perform call disk = (.ok reply, later)) :
    (request label call).run machine () faults () disk = ((.ok reply, ()), later) := by
  show (((answer (faults [label]) call disk).1, ()), (answer (faults [label]) call disk).2) = _
  rw [outcome, answer, done]

theorem answer_of_failure? {outcome : Outcome} {failure : Failure}
    (fails : outcome.failure? = some failure) (call : Call) :
    (answer outcome call disk).1 = .error failure := by
  cases outcome with
  | done => cases fails
  | failed other =>
    cases fails
    rfl
  | brokeOff bytes other =>
    cases fails
    rfl

/-- A call that leaves nothing of itself where it fails. -/
theorem later_of_failure? {outcome : Outcome} {failure : Failure} {call : Call}
    (fails : outcome.failure? = some failure) (whole : ∀ bytes, performPartly bytes call disk = disk) :
    (answer outcome call disk).2 = disk := by
  cases outcome with
  | done => cases fails
  | failed other => rfl
  | brokeOff bytes other => exact whole bytes

/-- Where the removal is done, or nothing was there, nothing is there afterwards. -/
theorem run_removeOld (noDirectory : disk.target ≠ some .directory)
    (removed : faults [.removeOld] = .done ∨
      (disk.target = none ∧ (faults [.removeOld]).failure? = some (.system "ENOENT"))) :
    removeOld.run machine () faults () disk = ((.ok (), ()), { disk with target := none }) := by
  have attempted : (attempt (request .removeOld .unlink)).run machine () faults () disk =
      ((.ok (answer (faults [.removeOld]) .unlink disk).1, ()),
        (answer (faults [.removeOld]) .unlink disk).2) := run_attempt ..
  unfold removeOld
  rw [run_bind_ok attempted]
  obtain ⟨name, target, temporary⟩ := disk
  rcases removed with done | ⟨missing, fails⟩
  · rw [done]
    cases target with
    | none => rfl
    | some held =>
      cases held with
      | file bytes => rfl
      | link other => rfl
      | directory => exact absurd rfl noDirectory
  · cases missing
    rw [answer_of_failure? fails, later_of_failure? fails fun _ => rfl]
    rfl

/-- The copy is made, and the upload waits. -/
theorem run_copyAcross {bytes : Bytes} (noDirectory : disk.target ≠ some .directory)
    (whole : disk.temporary = some bytes) (made : CopyMade faults disk.target) :
    (copyAcross.run machine () faults () disk).1.1 = .ok none := by
  have opened : openFile.run machine () faults () { disk with target := none } =
      ((.ok (), ()), { disk with target := some (.file []) }) := by
    have attempted : (attempt (request .openNew .openNew)).run machine () faults ()
        { disk with target := none } = ((.ok (.ok ()), ()), { disk with target := some (.file []) }) := by
      rw [run_attempt, run_request_done made.opened rfl]
    have asked : (attempt (request .askOpened .isFile)).run machine () faults ()
        { disk with target := some (.file []) } =
          ((.ok (.ok true), ()), { disk with target := some (.file []) }) := by
      rw [run_attempt, run_request_done made.asked rfl]
    unfold openFile
    rw [run_bind_ok attempted]
    show askOpened.run machine () faults () _ = _
    unfold askOpened
    rw [run_bind_ok asked]
    rfl
  have copied : (attempt (request .copy .copy)).run machine () faults ()
      { disk with target := some (.file []) } =
        ((.ok (.ok ()), ()), { disk with target := some (.file bytes) }) := by
    refine (run_attempt ..).trans ?_
    rw [run_request_done made.copied (show perform .copy { disk with target := some (.file []) } =
      (.ok (), { disk with target := some (.file bytes) }) by rw [perform]; dsimp only; rw [whole])]
  unfold copyAcross
  rw [run_bind_ok (run_removeOld noDirectory made.removed), run_bind_ok opened,
    run_bind_ok copied]
  rfl

theorem run_place {bytes : Bytes} (noDirectory : disk.target ≠ some .directory)
    (whole : disk.temporary = some bytes) (made : CopyMade faults disk.target) :
    (place.run machine () faults () disk).1.1 = .ok none := by
  have attempted : (attempt (request .rename .rename)).run machine () faults () disk =
      ((.ok (.error (.system "EXDEV")), ()), disk) := by
    refine (run_attempt ..).trans ?_
    show ((Except.ok (answer (faults [.rename]) .rename disk).1, ()),
      (answer (faults [.rename]) .rename disk).2) = _
    rw [answer_of_failure? made.across, later_of_failure? made.across fun _ => rfl]
  unfold place
  rw [run_bind_ok attempted]
  show (Code.run machine () faults (if _ then copyAcross else _) () disk).1.1 = _
  rw [if_pos rfl]
  exact run_copyAcross noDirectory whole made

theorem run_taken (noDirectory : disk.target ≠ some .directory) (fresh : disk.temporary = none)
    (whole : TakenWhole faults source expected) (made : CopyMade faults disk.target) :
    ((taken source expected).run machine () faults () disk).1.1 = .ok none := by
  have all := limited_whole whole.within
  have filled : (request .fill (.pipeline source)).run machine () faults () disk =
      ((.ok source.chunks.flatten.length, ()),
        { disk with temporary := some source.chunks.flatten }) := by
    refine run_request_done whole.filled ?_
    rw [perform, fresh, if_neg (by decide), Uploads.filled]
    rw [whole.within, whole.whole, all]
    rfl
  have asPromised : (expected.filter fun promised => promised ≠ source.chunks.flatten.length) =
      none := Option.filter_eq_none_iff.mpr fun promised is_ => by simp [whole.promised promised is_]
  unfold taken
  rw [run_bind_ok filled, asPromised]
  have waits : ∀ later : Disk, later.target = disk.target →
      later.temporary = some source.chunks.flatten →
      (place.run machine () faults () later).1.1 = .ok none := by
    intro later same temporary
    exact run_place (same ▸ noDirectory) temporary (same ▸ made)
  exact waits _ rfl rfl

theorem waits_of_copies {name : String} (copies : Copies faults source expected name target) :
    (ran faults source expected name target).1 = .ok none := by
  have cleans : ((cleaned (taken source expected)).run machine () faults ()
      (before name target)).1.1 = .ok none := by
    have waits : ((taken source expected).run machine () faults () (before name target)).1.1 =
        .ok none := run_taken copies.noDirectory rfl copies.taken copies.made
    unfold cleaned
    rw [run_bind, run_attempt]
    dsimp only
    rw [waits]
    rfl
  have uploads : ((upload source expected).run machine () faults () (before name target)).1.1 =
      .ok none := by
    unfold upload
    rw [run_bind_ok (run_request_done copies.uploads rfl), run_bind]
    generalize (cleaned (taken source expected)).run machine () faults () (before name target) =
      ended at cleans
    obtain ⟨⟨ended, after⟩, later⟩ := ended
    cases cleans
    rfl
  have inside : ((inLocated source expected name).run machine () faults ()
      (before name target)).1.1 = .ok none := by
    unfold inLocated
    rw [if_neg copies.named, run_bind_ok (run_request_done copies.looked rfl),
      if_neg (show ¬(before name target).target = some .directory from copies.noDirectory)]
    exact uploads
  show ((writeFromStreamBeneath source expected).run machine () faults ()
    (before name target)).1.1 = _
  unfold writeFromStreamBeneath
  rw [run_bind_ok (run_request_done copies.located rfl), run_bind, run_attempt]
  show (Code.run machine () faults (closed ((inLocated source expected name).run machine () faults
    () (before name target)).1.1) _ _).1.1 = _
  rw [inside]
  rfl

end

/-! ### Which failures matter -/

end Geeboard.Uploads
