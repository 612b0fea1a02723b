/-
This file is about the downloads of images on a node.

A download is a job: it is kept for its image before anything is awaited, so that a
second request joins it, then Docker is asked whether the image is there, then for
the stream of its pull, and the stream is read until it ends. A job that has not
moved for a while is failed, and the stream it holds is destroyed. A job that holds
none yet is failed too, and goes on: the stream it is then given is nobody's, and a
second job for the image may have been started meanwhile. Every stream belongs to
a job that is still pulling, one for an image, exactly in the runs in which Docker
opens no stream for a job that has ended.
-/

import Geeboard.Systems.Steps
import Mathlib

namespace Geeboard.Agent.Pulls

open Systems Option Function

/-! ### What a stream says -/

inductive LayerState where
  | waiting | downloading | downloaded | extracting | done
  deriving DecidableEq, Repr

structure Layer where
  state : LayerState := .waiting
  current : Rat := 0
  total : Rat := 0
  extracted : Rat := 0
  deriving DecidableEq, Repr

structure PullProgress where
  layers : List (String × Layer) := []
  error : Option String := none
  deriving DecidableEq, Repr

/-- One line of the stream, as Docker writes it. -/
structure PullEvent where
  status : Option String := none
  id : Option String := none
  current : Option Rat := none
  total : Option Rat := none
  error : Option String := none
  errorMessage : Option String := none
  deriving DecidableEq, Repr

def Layer.bytes (layer : Layer) : Rat :=
  if layer.state = .waiting ∨ layer.state = .downloading then layer.current
  else max layer.current layer.total

def bytesOf (progress : PullProgress) : Rat :=
  (progress.layers.map fun entry => entry.2.bytes).sum

def setLayer (layers : List (String × Layer)) (id : String) (layer : Layer) :
    List (String × Layer) :=
  if layers.any fun entry => entry.1 == id then
    layers.map fun entry => if entry.1 == id then (id, layer) else entry
  else layers ++ [(id, layer)]

def Layer.downloading (layer : Layer) (event : PullEvent) : Layer :=
  let total := (event.total.filter fun total => 0 < total).getD layer.total
  let current := (event.current.map fun current => max layer.current current).getD layer.current
  { layer with state := .downloading, total, current }

/-- A layer after a status about it, and whether that alone is a move; none for a status that
says nothing. -/
def Layer.after (layer : Layer) (status : String) (event : PullEvent) : Option (Layer × Bool) :=
  let whole := fun (layer : Layer) =>
    if 0 < layer.total then { layer with current := layer.total } else layer
  match status with
  | "Pulling fs layer" => some (layer, false)
  | "Waiting" => some (layer, false)
  | "Downloading" => some (layer.downloading event, false)
  | "Verifying Checksum" => some (layer.downloading event, false)
  | "Download complete" => some (whole { layer with state := .downloaded }, false)
  | "Extracting" =>
    let counted := event.current.getD 0
    if layer.extracted < counted then
      some ({ layer with state := .extracting, extracted := counted }, true)
    else some ({ layer with state := .extracting }, false)
  | "Pull complete" => some (whole { layer with state := .done }, false)
  | "Already exists" => some (whole { layer with state := .done }, false)
  | _ => none

/-- The progress after one event, and whether the pull moved. -/
def applyEvent (progress : PullProgress) (event : PullEvent) : PullProgress × Bool :=
  if event.error.any (· != "") || event.errorMessage.any (· != "") then
    ({ progress with
        error := some ((event.errorMessage <|> event.error).getD "Docker reported an error") }, true)
  else
    let status := event.status.getD ""
    match event.id.filter (· != "") with
    | none => (progress, false)
    | some id =>
      if "Pulling from".toList.isPrefixOf status.toList then (progress, false) else
        let known := (progress.layers.find? fun entry => entry.1 == id).map Prod.snd
        let layer := known.getD {}
        match layer.after status event with
        | none => ({ progress with layers := setLayer progress.layers id layer }, known.isNone)
        | some (changed, moved) =>
          let next := { progress with layers := setLayer progress.layers id changed }
          (next, moved || known.isNone || changed.state != layer.state ||
            decide (bytesOf progress < bytesOf next))

/-! ### Jobs -/

inductive PullState where
  | pulling | done | failed
  deriving DecidableEq, Repr

/-- Why a pull has failed. -/
inductive Failure where
  | stalled
  | refused (message : String)
  | broken (message : String)
  | reported (message : String)
  | withoutImage
  deriving DecidableEq, Repr

/-- How far a job is: whether the image is there has been asked, the stream has been asked for, it
is being read, its end is not noticed yet, the image is asked for again, or nothing is left. -/
inductive Stage where
  | asked | opening | reading | closing | checking | over_
  deriving DecidableEq, Repr

/-- What has become of the stream Docker opened for a job. -/
inductive Stream where
  | unopened | live | gone
  deriving DecidableEq, Repr

structure Job where
  image : String
  progress : PullProgress := {}
  pending : List Char := []
  state : PullState := .pulling
  startedAt : Int
  advancedAt : Int
  finishedAt : Option Int := none
  error : Option Failure := none
  holds : Bool := false
  stage : Stage := .asked
  stream : Stream := .unopened
  deriving DecidableEq, Repr

def Job.finish (job : Job) (state : PullState) (error : Option Failure) (now : Int) : Job :=
  if job.state = .pulling then
    { job with state, error, finishedAt := some now, holds := false }
  else job

/-- One line of the stream, when it can be read. -/
def Job.line (read : List Char → Option PullEvent) (job : Job) (text : List Char) (now : Int) :
    Job :=
  match read text with
  | none => job
  | some event =>
    let (progress, moved) := applyEvent job.progress event
    { job with progress, advancedAt := if moved then now else job.advancedAt }

/-- What is left of a text after its whole lines were read. -/
def Job.chunk (read : List Char → Option PullEvent) (job : Job) (text : List Char) (now : Int) :
    Job :=
  let pieces := (job.pending ++ text).splitOnP (· == '\n')
  let job := pieces.dropLast.foldl (fun job line => job.line read line now) job
  { job with pending := pieces.getLast?.getD [] }

/-! ### The node's downloads -/

/-- The jobs there ever were, and the one that is kept for each image. -/
structure State where
  jobs : Nat → Option Job
  count : Nat
  kept : String → Option Nat

/-- A request, an answer of Docker to what a job has asked for, something a stream says, a job
going on after its stream, and what the agent's timers do. -/
inductive Event where
  | start (image : String) (now : Int)
  | present (id : Nat) (there : Bool) (now : Int)
  | opened (id : Nat)
  | refused (id : Nat) (message : String) (now : Int)
  | data (id : Nat) (text : List Char) (now : Int)
  | ended (id : Nat) (now : Int)
  | closed (id : Nat)
  | broke (id : Nat) (message : String) (now : Int)
  | resume (id : Nat) (now : Int)
  | checked (id : Nat) (there : Bool) (now : Int)
  | checkStalls (now : Int)
  | forget (id : Nat) (now : Int)

def KEEP_FINISHED_MS : Int := 30 * 60000

def State.empty : State where
  jobs _ := none
  count := 0
  kept _ := none

def State.setJob (state : State) (id : Nat) (job : Job) : State :=
  { state with jobs := Function.update state.jobs id (some job) }

/-- What becomes of the job with an id, where it is as an event needs it. -/
def State.at_ (state : State) (id : Nat) (needs : Job → Bool) (becomes : Job → Job) :
    Option State :=
  ((state.jobs id).filter needs).map fun job => state.setJob id (becomes job)

/-- A new job for an image, kept before anything is awaited. -/
def State.begin (state : State) (image : String) (now : Int) : State :=
  { jobs := Function.update state.jobs state.count
      (some { image, startedAt := now, advancedAt := now })
    count := state.count + 1
    kept := Function.update state.kept image (some state.count) }

/-- A new job for an image; the one that is pulling it is joined. -/
def State.start (state : State) (image : String) (now : Int) : State :=
  match (state.kept image).bind state.jobs with
  | some running =>
    if running.state = .pulling then state else state.begin image now
  | none => state.begin image now

section Step

variable (read : List Char → Option PullEvent) (stallMs : Int)

/-- A job after its stream is over. -/
def Job.goOn (job : Job) (now : Int) : Job :=
  if job.state ≠ .pulling then { job with stage := .over_ }
  else match job.progress.error.filter (· != "") with
    | some message => { job.finish .failed (some (.reported message)) now with stage := .over_ }
    | none => { job with stage := .checking }

/-- A stream's end, noticed once. -/
def Job.streamOver (job : Job) : Job :=
  { job with
    stream := .gone
    stage := if job.stage = .reading then .closing else job.stage }

/-- A job that has not moved for too long is failed, and the stream it holds is destroyed. -/
def Job.stall (job : Job) (now : Int) : Job :=
  if job.state = .pulling ∧ stallMs < now - job.advancedAt then
    { job.finish .failed (some .stalled) now with
      stream := if job.holds then .gone else job.stream }
  else job

def step (state : State) : Event → Option State
  | .start image now => some (state.start image now)
  | .present id there now =>
    state.at_ id (fun job => job.stage = .asked) fun job =>
      if there then { job.finish .done none now with stage := .over_ }
      else { job with stage := .opening }
  | .opened id =>
    state.at_ id (fun job => job.stage = .opening) fun job =>
      { job with stage := .reading, holds := true, stream := .live }
  | .refused id message now =>
    state.at_ id (fun job => job.stage = .opening) fun job =>
      { job.finish .failed (some (.refused message)) now with stage := .over_ }
  | .data id text now =>
    state.at_ id (fun job => job.stream = .live) fun job => job.chunk read text now
  | .ended id now =>
    state.at_ id (fun job => job.stream ≠ .unopened) fun job =>
      (job.line read job.pending now).streamOver
  | .closed id =>
    state.at_ id (fun job => job.stream ≠ .unopened) Job.streamOver
  | .broke id message now =>
    state.at_ id (fun job => job.stream ≠ .unopened) fun job =>
      (job.finish .failed (some (.broken message)) now).streamOver
  | .resume id now =>
    state.at_ id (fun job => job.stage = .closing) fun job => job.goOn now
  | .checked id there now =>
    state.at_ id (fun job => job.stage = .checking) fun job =>
      { job.finish (if there then .done else .failed) (if there then none else some .withoutImage)
          now with stage := .over_ }
  | .checkStalls now =>
    some { state with
      jobs := fun id => (state.jobs id).map fun job =>
        if state.kept job.image = some id then job.stall stallMs now else job }
  | .forget id now =>
    ((state.jobs id).filter fun job =>
        job.finishedAt.any fun finishedAt => finishedAt + KEEP_FINISHED_MS ≤ now).map fun job =>
      if state.kept job.image = some id then
        { state with kept := Function.update state.kept job.image none }
      else state

end Step

/-! ### What is to hold, and when it does -/

/-- No two streams of an image are live, and none of a failed job. -/
structure OneStream (state : State) : Prop where
  one : ∀ first second job other, state.jobs first = some job → state.jobs second = some other →
    job.stream = .live → other.stream = .live → job.image = other.image → first = second
  stopped : ∀ id job, state.jobs id = some job → job.state = .failed → job.stream ≠ .live

/-- When Docker opens the stream a job asked for, the job is still pulling. -/
def StillPulling (state : State) : Event → Prop
  | .opened id => ∀ job, state.jobs id = some job → job.stage = .opening → job.state = .pulling
  | _ => True

/-! ### What every step keeps -/

/-- How a job's stage, state and stream go together. -/
structure JobFits (kept : String → Option Nat) (id : Nat) (job : Job) : Prop where
  here : job.state = .pulling → kept job.image = some id
  going : job.state = .pulling → job.finishedAt = none
  held : job.stream = .live → job.state = .pulling → job.holds = true
  opened : job.holds = true → job.stream ≠ .unopened
  unopened : job.stage = .asked ∨ job.stage = .opening → job.stream = .unopened
  gone : job.stage = .closing ∨ job.stage = .checking → job.stream = .gone
  done : job.state = .done → job.stage = .over_ ∧ job.stream ≠ .live

/-- Every job fits, and the ones to come have no id yet. -/
structure Fits (state : State) : Prop where
  fresh : ∀ id job, state.jobs id = some job → id < state.count
  each : ∀ id job, state.jobs id = some job → JobFits state.kept id job

/-- Every live stream is a pulling job's. -/
def LivePulls (state : State) : Prop :=
  ∀ id job, state.jobs id = some job → job.stream = .live → job.state = .pulling

variable {state next : State}

theorem oneStream_iff (fits : Fits state) : OneStream state ↔ LivePulls state := by
  constructor
  · intro sound id job isJob live
    cases is : job.state with
    | pulling => rfl
    | done => exact absurd live ((fits.each id job isJob).done is).2
    | failed => exact absurd live (sound.stopped id job isJob is)
  · intro pulls
    refine ⟨fun first second job other isJob isOther live also_ same => ?_,
      fun id job isJob failed live => ?_⟩
    · have firstKept := (fits.each first job isJob).here (pulls first job isJob live)
      have secondKept := (fits.each second other isOther).here (pulls second other isOther also_)
      rw [same] at firstKept
      exact some.inj (firstKept.symm.trans secondKept)
    · rw [pulls id job isJob live] at failed
      cases failed

theorem at_eq_some {id : Nat} {needs : Job → Bool} {becomes : Job → Job}
    (taken : state.at_ id needs becomes = some next) :
    ∃ job, state.jobs id = some job ∧ needs job = true ∧ next = state.setJob id (becomes job) := by
  obtain ⟨job, isJob, rfl⟩ := map_eq_some_iff.mp taken
  obtain ⟨isJob, meets⟩ := filter_eq_some_iff.mp isJob
  exact ⟨job, isJob, meets, rfl⟩

theorem setJob_self (state : State) (id : Nat) (job : Job) :
    (state.setJob id job).jobs id = some job := update_self _ _ _

theorem setJob_ne (state : State) {id other : Nat} (job : Job) (different : other ≠ id) :
    (state.setJob id job).jobs other = state.jobs other := update_of_ne different _ _

theorem fits_setJob (fits : Fits state) {id : Nat} {job changed : Job}
    (isJob : state.jobs id = some job) (changes : JobFits state.kept id changed) :
    Fits (state.setJob id changed) := by
  constructor
  · intro other otherJob isOther
    by_cases same : other = id
    · rw [same]
      exact fits.fresh id job isJob
    · rw [setJob_ne state changed same] at isOther
      exact fits.fresh other otherJob isOther
  · intro other otherJob isOther
    by_cases same : other = id
    · rw [same, setJob_self] at isOther
      obtain rfl := some.inj isOther
      rw [same]
      exact changes
    · rw [setJob_ne state changed same] at isOther
      exact fits.each other otherJob isOther

/-- A change of one job keeps live streams with pulling jobs just when that job's is. -/
theorem livePulls_setJob (pulls : LivePulls state) {id : Nat} {changed : Job} :
    LivePulls (state.setJob id changed) ↔ (changed.stream = .live → changed.state = .pulling) := by
  constructor
  · intro after
    exact after id changed (setJob_self state id changed)
  · intro changes other otherJob isOther live
    by_cases same : other = id
    · rw [same, setJob_self] at isOther
      obtain rfl := some.inj isOther
      exact changes live
    · rw [setJob_ne state changed same] at isOther
      exact pulls other otherJob isOther live

section Changes

variable {kept : String → Option Nat} {id : Nat} {job : Job} {now : Int}

theorem finish_state {to_ : PullState} {error : Option Failure} (ends : to_ ≠ .pulling) :
    (job.finish to_ error now).state ≠ .pulling := by
  unfold Job.finish
  split
  · exact ends
  · assumption

/-- A job whose stream is not live may end. -/
theorem JobFits.finish (fits : JobFits kept id job) {to_ : PullState} {error : Option Failure}
    (ends : to_ ≠ .pulling) (quiet : job.stream ≠ .live) :
    JobFits kept id { job.finish to_ error now with stage := .over_ } where
  here pulls := absurd pulls (finish_state ends)
  going pulls := absurd pulls (finish_state ends)
  held _ pulls := absurd pulls (finish_state ends)
  opened holds := by
    unfold Job.finish at holds ⊢
    split at holds
    · cases holds
    case isFalse over_ => rw [if_neg over_]; exact fits.opened holds
  unopened asked := by simp at asked
  gone closing := by simp at closing
  done _ := by
    refine ⟨rfl, ?_⟩
    unfold Job.finish
    split
    · exact quiet
    · exact quiet

theorem finish_stream {to_ : PullState} {error : Option Failure} :
    (job.finish to_ error now).stream = job.stream := by
  unfold Job.finish
  split
  · rfl
  · rfl

/-- What a job has read of its stream does not matter to how it fits. -/
theorem JobFits.read (fits : JobFits kept id job) {other : Job} (image : other.image = job.image)
    (state : other.state = job.state) (finished : other.finishedAt = job.finishedAt)
    (holds : other.holds = job.holds) (stage : other.stage = job.stage)
    (stream : other.stream = job.stream) :
    JobFits kept id other where
  here := by rw [state, image]; exact fits.here
  going := by rw [state, finished]; exact fits.going
  held := by rw [stream, state, holds]; exact fits.held
  opened := by rw [stream, holds]; exact fits.opened
  unopened := by rw [stage, stream]; exact fits.unopened
  gone := by rw [stage, stream]; exact fits.gone
  done := by rw [state, stage, stream]; exact fits.done

/-- The job is as it was but for what it has read. -/
def SameJob (job other : Job) : Prop :=
  other.image = job.image ∧ other.state = job.state ∧ other.finishedAt = job.finishedAt ∧
    other.holds = job.holds ∧ other.stage = job.stage ∧ other.stream = job.stream

theorem sameJob_line (read : List Char → Option PullEvent) (text : List Char) :
    SameJob job (job.line read text now) := by
  unfold Job.line
  split
  · exact ⟨rfl, rfl, rfl, rfl, rfl, rfl⟩
  · exact ⟨rfl, rfl, rfl, rfl, rfl, rfl⟩

theorem sameJob_chunk (read : List Char → Option PullEvent) (text : List Char) :
    SameJob job (job.chunk read text now) := by
  have folded (lines : List (List Char)) :
      SameJob job (lines.foldl (fun job line => job.line read line now) job) := by
    induction lines generalizing job with
    | nil => exact ⟨rfl, rfl, rfl, rfl, rfl, rfl⟩
    | cons line lines inductionHypothesis =>
      obtain ⟨image, state, finished, holds, stage, stream⟩ := @sameJob_line job now read line
      obtain ⟨image', state', finished', holds', stage', stream'⟩ :=
        @inductionHypothesis (job.line read line now)
      exact ⟨image'.trans image, state'.trans state, finished'.trans finished,
        holds'.trans holds, stage'.trans stage, stream'.trans stream⟩
  exact folded _

theorem SameJob.fits {other : Job} (same : SameJob job other) (fits : JobFits kept id job) :
    JobFits kept id other :=
  fits.read same.1 same.2.1 same.2.2.1 same.2.2.2.1 same.2.2.2.2.1 same.2.2.2.2.2

/-- A stream that was opened may be over. -/
theorem JobFits.streamOver (fits : JobFits kept id job) (opened : job.stream ≠ .unopened) :
    JobFits kept id job.streamOver := by
  have notAsked : ¬ (job.stage = .asked ∨ job.stage = .opening) := fun asked =>
    opened (fits.unopened asked)
  refine ⟨fits.here, fits.going, fun live => ?_, fun _ => ?_, fun asked => ?_, fun _ => rfl, fun done => ?_⟩
  · cases live
  · rintro ⟨⟩
  · unfold Job.streamOver at asked
    split at asked
    · simp at asked
    · exact absurd asked notAsked
  · obtain ⟨stage, -⟩ := fits.done done
    unfold Job.streamOver
    rw [stage]
    exact ⟨rfl, by simp⟩

end Changes

/-! ### Every step -/

theorem begin_new (state : State) (image : String) (now : Int) :
    (state.begin image now).jobs state.count = some { image, startedAt := now, advancedAt := now } :=
  update_self _ _ _

theorem begin_old (state : State) (image : String) (now : Int) {id : Nat}
    (old : id ≠ state.count) : (state.begin image now).jobs id = state.jobs id :=
  update_of_ne old _ _

/-- A new job fits where no job pulls its image. -/
theorem fits_begin (fits : Fits state) {image : String} {now : Int}
    (free : ∀ id job, state.jobs id = some job → job.image = image → job.state ≠ .pulling) :
    Fits (state.begin image now) := by
  constructor
  · intro id job isJob
    by_cases new : id = state.count
    · rw [new]
      exact Nat.lt_succ_self _
    · rw [begin_old state image now new] at isJob
      exact Nat.lt_succ_of_lt (fits.fresh id job isJob)
  · intro id job isJob
    by_cases new : id = state.count
    · rw [new, begin_new] at isJob
      obtain rfl := some.inj isJob
      rw [new]
      refine ⟨fun _ => update_self _ _ _, fun _ => rfl, ?_, ?_, fun _ => rfl, ?_, ?_⟩
      · rintro ⟨⟩
      · rintro ⟨⟩
      · rintro (⟨⟨⟩⟩ | ⟨⟨⟩⟩)
      · rintro ⟨⟩
    · rw [begin_old state image now new] at isJob
      have old := fits.each id job isJob
      refine { old with here := fun pulling => ?_ }
      have other : job.image ≠ image := fun same => free id job isJob same pulling
      exact (update_of_ne other _ _).trans (old.here pulling)

theorem livePulls_begin (pulls : LivePulls state) (image : String) (now : Int) :
    LivePulls (state.begin image now) := by
  intro id job isJob live
  by_cases new : id = state.count
  · rw [new, begin_new] at isJob
    obtain rfl := some.inj isJob
    cases live
  · rw [begin_old state image now new] at isJob
    exact pulls id job isJob live

theorem start_keeps (fits : Fits state) (pulls : LivePulls state) (image : String) (now : Int) :
    Fits (state.start image now) ∧ LivePulls (state.start image now) := by
  unfold State.start
  split
  case h_1 running isRunning =>
    split
    · exact ⟨fits, pulls⟩
    case isFalse idle =>
      refine ⟨fits_begin fits fun id job isJob same pulling => idle ?_,
        livePulls_begin pulls image now⟩
      rw [← same, (fits.each id job isJob).here pulling, bind_some, isJob] at isRunning
      rwa [← some.inj isRunning]
  case h_2 none =>
    refine ⟨fits_begin fits fun id job isJob same pulling => ?_, livePulls_begin pulls image now⟩
    rw [← same, (fits.each id job isJob).here pulling, bind_some, isJob] at none
    cases none

/-- A stalled job fits, and the stream it holds is gone. -/
theorem stall_keeps {kept : String → Option Nat} {stallMs now : Int} {id : Nat} {job : Job}
    (fits : JobFits kept id job) (pulls : job.stream = .live → job.state = .pulling) :
    JobFits kept id (job.stall stallMs now) ∧
      ((job.stall stallMs now).stream = .live → (job.stall stallMs now).state = .pulling) := by
  unfold Job.stall
  split
  case isFalse => exact ⟨fits, pulls⟩
  case isTrue stalled =>
    unfold Job.finish
    rw [if_pos stalled.1]
    dsimp only
    rcases holds : job.holds with _ | _
    · have quiet : job.stream ≠ .live := fun live => by
        have held := fits.held live stalled.1
        rw [holds] at held
        cases held
      refine ⟨⟨?_, ?_, ?_, ?_, fits.unopened, fits.gone, ?_⟩, fun live => absurd live quiet⟩
      · rintro ⟨⟩
      · rintro ⟨⟩
      · rintro - ⟨⟩
      · rintro ⟨⟩
      · rintro ⟨⟩
    · have notAsked : ¬ (job.stage = .asked ∨ job.stage = .opening) := fun asked =>
        fits.opened holds (fits.unopened asked)
      refine ⟨⟨?_, ?_, ?_, ?_, fun asked => absurd asked notAsked, fun _ => rfl, ?_⟩, ?_⟩
      · rintro ⟨⟩
      · rintro ⟨⟩
      · rintro - ⟨⟩
      · rintro ⟨⟩
      · rintro ⟨⟩
      · rintro ⟨⟩

theorem goOn_keeps {kept : String → Option Nat} {id : Nat} {job : Job} {now : Int}
    (fits : JobFits kept id job) (stage : job.stage = .closing) :
    JobFits kept id (job.goOn now) ∧ (job.goOn now).stream = .gone := by
  have gone := fits.gone (Or.inl stage)
  have quiet : job.stream ≠ .live := by rw [gone]; rintro ⟨⟩
  unfold Job.goOn
  split
  case isTrue over_ =>
    refine ⟨⟨fits.here, fits.going, fits.held, fits.opened, ?_, ?_, fun _ => ⟨rfl, quiet⟩⟩, gone⟩
    · rintro (⟨⟨⟩⟩ | ⟨⟨⟩⟩)
    · rintro (⟨⟨⟩⟩ | ⟨⟨⟩⟩)
  case isFalse pulling =>
    split
    · exact ⟨fits.finish nofun quiet, finish_stream.trans gone⟩
    · refine ⟨⟨fits.here, fits.going, fits.held, fits.opened, ?_, fun _ => gone, fun done => ?_⟩, gone⟩
      · rintro (⟨⟨⟩⟩ | ⟨⟨⟩⟩)
      · exact absurd (done.symm.trans (not_not.mp pulling)) nofun

section Steps

variable {read : List Char → Option PullEvent} {stallMs : Int}

/-- A change of one job that fits, and whose stream is live only while it pulls. -/
theorem setJob_keeps (fits : Fits state) (pulls : LivePulls state) {id : Nat} {job changed : Job}
    (isJob : state.jobs id = some job) (changes : JobFits state.kept id changed)
    (quiet : changed.stream = .live → changed.state = .pulling) :
    Fits (state.setJob id changed) ∧ LivePulls (state.setJob id changed) :=
  ⟨fits_setJob fits isJob changes, (livePulls_setJob pulls).mpr quiet⟩

theorem present_keeps {kept : String → Option Nat} {id : Nat} {job : Job} {now : Int}
    (fits : JobFits kept id job) (stage : job.stage = .asked) (there : Bool) :
    let changed := if there then { job.finish .done none now with stage := .over_ }
      else { job with stage := .opening }
    JobFits kept id changed ∧ (changed.stream = .live → changed.state = .pulling) := by
  have unopened := fits.unopened (Or.inl stage)
  have quiet : job.stream ≠ .live := by rw [unopened]; rintro ⟨⟩
  rcases there with _ | _
  · refine ⟨⟨fits.here, fits.going, fits.held, fits.opened, fun _ => unopened, ?_, fun done => ?_⟩,
      fun live => absurd live quiet⟩
    · rintro (⟨⟨⟩⟩ | ⟨⟨⟩⟩)
    · have over_ := (fits.done done).1
      rw [stage] at over_
      cases over_
  · exact ⟨fits.finish nofun quiet,
      fun live => absurd (finish_stream.symm.trans live) quiet⟩

theorem opened_fits {kept : String → Option Nat} {id : Nat} {job : Job}
    (fits : JobFits kept id job) (stage : job.stage = .opening) :
    JobFits kept id { job with stage := .reading, holds := true, stream := .live } := by
  refine ⟨fits.here, fits.going, fun _ _ => rfl, ?_, ?_, ?_, fun done => ?_⟩
  · rintro - ⟨⟩
  · rintro (⟨⟨⟩⟩ | ⟨⟨⟩⟩)
  · rintro (⟨⟨⟩⟩ | ⟨⟨⟩⟩)
  · have over_ := (fits.done done).1
    rw [stage] at over_
    cases over_

theorem broke_fits {kept : String → Option Nat} {id : Nat} {job : Job} {now : Int}
    {message : String} (fits : JobFits kept id job) (opened : job.stream ≠ .unopened) :
    JobFits kept id (job.finish .failed (some (.broken message)) now).streamOver := by
  by_cases pulling : job.state = .pulling
  · unfold Job.finish
    rw [if_pos pulling]
    refine JobFits.streamOver ⟨?_, ?_, ?_, ?_, fits.unopened, fits.gone, ?_⟩ opened
    · rintro ⟨⟩
    · rintro ⟨⟩
    · rintro - ⟨⟩
    · rintro ⟨⟩
    · rintro ⟨⟩
  · unfold Job.finish
    rw [if_neg pulling]
    exact fits.streamOver opened

theorem checkStalls_keeps (fits : Fits state) (pulls : LivePulls state) (now : Int)
    (taken : step read stallMs state (.checkStalls now) = some next) :
    Fits next ∧ LivePulls next := by
  obtain rfl := some.inj taken
  have each (id : Nat) (job : Job) (isJob : state.jobs id = some job) :
      let changed := if state.kept job.image = some id then job.stall stallMs now else job
      JobFits state.kept id changed ∧ (changed.stream = .live → changed.state = .pulling) := by
    have old := fits.each id job isJob
    dsimp only
    split
    · exact stall_keeps old (pulls id job isJob)
    · exact ⟨old, pulls id job isJob⟩
  refine ⟨⟨fun id changed isChanged => ?_, fun id changed isChanged => ?_⟩,
    fun id changed isChanged => ?_⟩
  · obtain ⟨job, isJob, -⟩ := map_eq_some_iff.mp isChanged
    exact fits.fresh id job isJob
  · obtain ⟨job, isJob, rfl⟩ := map_eq_some_iff.mp isChanged
    exact (each id job isJob).1
  · obtain ⟨job, isJob, rfl⟩ := map_eq_some_iff.mp isChanged
    exact (each id job isJob).2

theorem forget_keeps (fits : Fits state) (pulls : LivePulls state) (id : Nat) (now : Int)
    (taken : step read stallMs state (.forget id now) = some next) :
    Fits next ∧ LivePulls next := by
  obtain ⟨job, isJob, rfl⟩ := map_eq_some_iff.mp taken
  obtain ⟨isJob, late⟩ := filter_eq_some_iff.mp isJob
  split
  case isFalse => exact ⟨fits, pulls⟩
  case isTrue isKept =>
    refine ⟨⟨fits.fresh, fun other otherJob isOther => ?_⟩, pulls⟩
    have old := fits.each other otherJob isOther
    refine { old with here := fun pulling => ?_ }
    have different : otherJob.image ≠ job.image := fun same => by
      have here := old.here pulling
      rw [same, isKept] at here
      obtain rfl := some.inj here
      obtain rfl := some.inj (isJob.symm.trans isOther)
      rw [old.going pulling] at late
      cases late
    exact (update_of_ne different _ _).trans (old.here pulling)

/-- Every step keeps the jobs fitting, and live streams with pulling jobs exactly when it does not
open a stream for a job that has ended. -/
theorem step_keeps (fits : Fits state) (pulls : LivePulls state) {event : Event}
    (taken : step read stallMs state event = some next) :
    Fits next ∧ (LivePulls next ↔ StillPulling state event) := by
  have calm (both : Fits next ∧ LivePulls next) : Fits next ∧ (LivePulls next ↔ True) :=
    ⟨both.1, iff_of_true both.2 trivial⟩
  cases event with
  | start image now =>
    obtain rfl := some.inj taken
    exact calm (start_keeps fits pulls image now)
  | present id there now =>
    obtain ⟨job, isJob, asked, rfl⟩ := at_eq_some taken
    obtain ⟨changes, quiet⟩ :=
      @present_keeps _ _ _ now (fits.each id job isJob) (of_decide_eq_true asked) there
    exact calm (setJob_keeps fits pulls isJob changes quiet)
  | opened id =>
    obtain ⟨job, isJob, opening, rfl⟩ := at_eq_some taken
    have stage := of_decide_eq_true opening
    refine ⟨fits_setJob fits isJob (opened_fits (fits.each id job isJob) stage),
      (livePulls_setJob pulls).trans ⟨fun now_ other isOther _ => ?_, fun still _ => ?_⟩⟩
    · obtain rfl := some.inj (isJob.symm.trans isOther)
      exact now_ rfl
    · exact still job isJob stage
  | refused id message now =>
    obtain ⟨job, isJob, opening, rfl⟩ := at_eq_some taken
    have old := fits.each id job isJob
    have unopened := old.unopened (Or.inr (of_decide_eq_true opening))
    have quiet : job.stream ≠ .live := by rw [unopened]; rintro ⟨⟩
    exact calm (setJob_keeps fits pulls isJob (old.finish nofun quiet)
      fun live => absurd (finish_stream.symm.trans live) quiet)
  | data id text now =>
    obtain ⟨job, isJob, -, rfl⟩ := at_eq_some taken
    have same := @sameJob_chunk job now read text
    refine calm (setJob_keeps fits pulls isJob (same.fits (fits.each id job isJob)) fun live => ?_)
    rw [same.2.1]
    exact pulls id job isJob (same.2.2.2.2.2 ▸ live)
  | ended id now =>
    obtain ⟨job, isJob, opened, rfl⟩ := at_eq_some taken
    have same := @sameJob_line job now read job.pending
    refine calm (setJob_keeps fits pulls isJob
      ((same.fits (fits.each id job isJob)).streamOver ?_) nofun)
    rw [same.2.2.2.2.2]
    exact of_decide_eq_true opened
  | closed id =>
    obtain ⟨job, isJob, opened, rfl⟩ := at_eq_some taken
    exact calm (setJob_keeps fits pulls isJob
      ((fits.each id job isJob).streamOver (of_decide_eq_true opened)) nofun)
  | broke id message now =>
    obtain ⟨job, isJob, opened, rfl⟩ := at_eq_some taken
    exact calm (setJob_keeps fits pulls isJob
      (broke_fits (fits.each id job isJob) (of_decide_eq_true opened)) nofun)
  | resume id now =>
    obtain ⟨job, isJob, closing, rfl⟩ := at_eq_some taken
    obtain ⟨changes, gone⟩ :=
      @goOn_keeps _ _ _ now (fits.each id job isJob) (of_decide_eq_true closing)
    refine calm (setJob_keeps fits pulls isJob changes fun live => ?_)
    rw [gone] at live
    cases live
  | checked id there now =>
    obtain ⟨job, isJob, checking, rfl⟩ := at_eq_some taken
    have old := fits.each id job isJob
    have gone := old.gone (Or.inr (of_decide_eq_true checking))
    have quiet : job.stream ≠ .live := by rw [gone]; rintro ⟨⟩
    exact calm (setJob_keeps fits pulls isJob (old.finish (by split <;> rintro ⟨⟩) quiet)
      fun live => absurd (finish_stream.symm.trans live) quiet)
  | checkStalls now => exact calm (checkStalls_keeps fits pulls now taken)
  | forget id now => exact calm (forget_keeps fits pulls id now taken)

theorem stillPulling_of_idle (event : Event)
    (idle : step read stallMs state event = none) : StillPulling state event := by
  cases event with
  | opened id =>
    intro job isJob opening
    have missing := filter_eq_none_iff.mp (map_eq_none_iff.mp idle) job isJob
    exact absurd (decide_eq_true opening) missing
  | _ => trivial

end Steps

theorem fits_empty : Fits State.empty :=
  ⟨fun _ _ => by rintro ⟨⟩, fun _ _ => by rintro ⟨⟩⟩

/-- In every state of a run one stream an image is live at most, and none of a failed job, exactly
when Docker opens no stream for a job that has ended. -/
theorem one_stream_iff (read : List Char → Option PullEvent) (stallMs : Int)
    (events : List Event) :
    Along (step read stallMs) OneStream State.empty events ↔
      Meets (step read stallMs) StillPulling State.empty events := by
  refine along_iff_meets (fun _ _ _ fits sound _ taken => ?_)
    (fun _ _ _ fits sound taken => ?_) (fun _ event idle => stillPulling_of_idle event idle)
    fits_empty ((oneStream_iff fits_empty).mpr fun _ _ => by rintro ⟨⟩)
  · exact (step_keeps fits ((oneStream_iff fits).mp sound) taken).1
  · obtain ⟨fitsNext, pulls⟩ := step_keeps fits ((oneStream_iff fits).mp sound) taken
    exact (oneStream_iff fitsNext).trans pulls

/-- A job is failed while its stream is being opened, another one is started, and both get
theirs. -/
def lateStream : List Event :=
  [.start "game:1" 0, .present 0 false 1, .checkStalls 300001, .start "game:1" 300002,
    .present 1 false 300003, .opened 1, .opened 0]

theorem two_streams :
    ¬ ∀ (read : List Char → Option PullEvent) (stallMs : Int) (events : List Event),
      Along (step read stallMs) OneStream State.empty events := by
  intro always
  obtain ⟨last, ends, live⟩ := map_eq_some_iff.mp
    (by decide +kernel : (run (step (fun _ => none) 300000) State.empty lateStream).map
      (fun last => ((last.jobs 0).map Job.stream, (last.jobs 0).map Job.state)) =
        some (some Stream.live, some PullState.failed))
  have sound := along_last (always (fun _ => none) 300000 lateStream) ends
  obtain ⟨job, isJob, isLive⟩ := map_eq_some_iff.mp (Prod.mk.inj live).1
  obtain ⟨other, isOther, isFailed⟩ := map_eq_some_iff.mp (Prod.mk.inj live).2
  obtain rfl := some.inj (isJob.symm.trans isOther)
  exact sound.stopped 0 job isJob isFailed isLive

end Geeboard.Agent.Pulls
