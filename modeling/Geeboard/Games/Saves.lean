/-
This file is about saves of a server's game settings that run at the same time.

A save reads the whole settings, puts what it was sent over them, and writes the
whole back; one that has to rebuild the workload may write the settings it read
a third time, minutes later. Each statement is one step. Nothing says that the
settings are still those a save has read, so a save undoes whatever was written
since. When nobody else writes between a save's reading and its last write, what
every save was sent is kept.
-/

import Geeboard.Games.Validation
import Geeboard.Systems.Steps
import Mathlib.Logic.Function.Basic

namespace Geeboard.Games.Saves

open List Option Function
open Text (Record)

/-! ### One save, up to its write -/

/-- What a save reads of a server beside its settings. -/
structure ServerFacts where
  version : Option GameVersion
  agentBehind : Bool
  hasWorkload : Bool
  built : Option (Record String (List Char))

/-- A save that is let through: what it read, and what it is about to write. -/
structure Save where
  sent : ConfigValues
  read : StoredColumns
  before : ConfigValues
  after : ConfigValues
  plan : ConfigPlan

/-- A value of the world's rules that the file has as well is no request to change it. -/
def takeFixed (game : GameDefinition) (before onNode values : ConfigValues) : ConfigValues :=
  ((game.config.filter ConfigField.fixedAfterCreation).map ConfigField.key).foldl
    (fun values key =>
      if values.has key && values.get key != before.get key && values.get key == onNode.get key
      then
        match before.get key with
        | some stored => values.set key stored
        | none => values
      else values)
    values

section

variable (language : Language) (test : PatternTest) (game : GameDefinition)

/-- The title of what a change of the settings is refused with. -/
def refusalOf (facts : ServerFacts) (plan : ConfigPlan) (recreate : Bool) : Option String :=
  let fixed := plan.changes.any fun change =>
    (game.config.find? fun field => field.key == change.key).any ConfigField.fixedAfterCreation
  if plan.changes = [] then some "Nothing to save"
  else if fixed then some "Set when the world was created"
  else if plan.needsRecreate && !recreate then some "This needs the server rebuilt"
  else if plan.needsRecreate && !facts.version.any GameVersion.supported then
    some "Cannot rebuild this server"
  else if plan.needsRecreate && facts.agentBehind then some "Upgrade the agent first"
  else none

/-- The part of a save before its write: what it makes of the settings, or the title of what it
is refused with. -/
def prepareSave (columns : StoredColumns) (facts : ServerFacts) (onNode sent : ConfigValues)
    (recreate : Bool) : Except String Save :=
  let before := currentConfig game (storedSettings columns)
  let unmasked := unmaskSecrets game sent before
  if validateConfig language test game unmasked ≠ [] then .error "Check the form"
  else
    let after := before.merge (takeFixed game before onNode unmasked)
    let held := if facts.hasWorkload then heldByWorkload game facts.built else []
    let plan := planConfigChange game before after held
    match refusalOf game facts plan recreate with
    | some title => .error title
    | none => .ok ⟨sent, columns, before, after, plan⟩

/-! ### Saves that take turns -/

/-- Where a save is. `seen` is how many times the settings had been written when it last looked
at them or wrote them itself. -/
inductive Job where
  | idle
  | asked (sent : ConfigValues) (recreate : Bool)
  | loaded (save : Save) (seen : Nat)
  | written (save : Save) (seen : Nat) (claimed : Bool)
  | saved (sent : ConfigValues)
  | ended (sent : ConfigValues)

/-- What a save was sent. -/
def Job.sent : Job → ConfigValues
  | .idle => .empty
  | .asked sent _ => sent
  | .loaded save _ => save.sent
  | .written save _ _ => save.sent
  | .saved sent => sent
  | .ended sent => sent

/-- How a rebuild around new settings turns out. -/
inductive Rebuild where
  | done | untouched | recovered | lost
  deriving DecidableEq, Repr

structure State where
  columns : StoredColumns
  jobs : Nat → Job
  writes : Nat

inductive Event where
  | ask (job : Nat) (sent : ConfigValues) (recreate : Bool)
  | load (job : Nat) (facts : ServerFacts) (onNode : ConfigValues)
  | write (job : Nat)
  | writeFiles (job : Nat) (done : Bool)
  | claim (job : Nat) (taken : Bool)
  | rebuild (job : Nat) (outcome : Rebuild)
  | stop (job : Nat)

def State.setJob (state : State) (job : Nat) (next : Job) : State :=
  { state with jobs := Function.update state.jobs job next }

/-- A write of the settings' columns. -/
def State.store (state : State) (columns : StoredColumns) : State :=
  { state with columns := columns, writes := state.writes + 1 }

/-- The columns a failed rebuild puts back: those the save has read. -/
def Save.previous (save : Save) : StoredColumns :=
  match save.read.config with
  | none => ⟨none, save.read.secretSettings⟩
  | some _ => settingsData game (storedSettings save.read)

/-- One step of one save. -/
def step (state : State) : Event → Option State
  | .ask job sent recreate =>
    match state.jobs job with
    | .idle => some (state.setJob job (.asked sent recreate))
    | _ => none
  | .load job facts onNode =>
    match state.jobs job with
    | .asked sent recreate =>
      match prepareSave language test game state.columns facts onNode sent recreate with
      | .ok save => some (state.setJob job (.loaded save state.writes))
      | .error _ => some (state.setJob job (.ended sent))
    | _ => none
  | .write job =>
    match state.jobs job with
    | .loaded save _ =>
      some ((state.store (settingsData game save.after)).setJob job
        (.written save (state.writes + 1) false))
    | _ => none
  | .writeFiles job done =>
    match state.jobs job with
    | .written save _ false =>
      if save.plan.needsRecreate then none
      else some (state.setJob job (if done then .saved save.sent else .ended save.sent))
    | _ => none
  | .claim job taken =>
    match state.jobs job with
    | .written save seen false =>
      if !save.plan.needsRecreate then none
      else if taken then some (state.setJob job (.written save seen true))
      else some ((state.store (settingsData game save.before)).setJob job (.ended save.sent))
    | _ => none
  | .rebuild job outcome =>
    match state.jobs job with
    | .written save _ true =>
      match outcome with
      | .done => some (state.setJob job (.saved save.sent))
      | .lost => some (state.setJob job (.ended save.sent))
      | _ => some ((state.store (save.previous game)).setJob job (.ended save.sent))
    | _ => none
  | .stop job =>
    match state.jobs job with
    | .idle => none
    | .saved _ => none
    | .ended _ => none
    | held => some (state.setJob job (.ended held.sent))

/-! ### What is to hold, and when it does -/

/-- No other save is sent a value for the key. -/
def OnlyIts (state : State) (job : Nat) (key : String) : Prop :=
  ∀ other, other ≠ job → (state.jobs other).sent.get key = none

/-- The settings have what every save that succeeded was sent, for the keys no other was sent. -/
def Kept (state : State) : Prop :=
  ∀ job sent, state.jobs job = .saved sent → ∀ key value, sent.get key = some value →
    OnlyIts state job key → (storedSettings state.columns).get key = some value

/-- A save sends what it means: no secret comes as the mark it is shown as, and no rule of the
world with another value than the stored one. -/
def Literal (columns : StoredColumns) (sent : ConfigValues) : Prop :=
  (∀ key ∈ secretKeys game, sent.get key ≠ some (.string SECRET_MASK)) ∧
    ∀ field ∈ game.config, field.fixedAfterCreation = true →
      sent.get field.key = none ∨
        sent.get field.key = (currentConfig game (storedSettings columns)).get field.key

/-- The step sends what it means when it reads, and writes settings that nobody has written since
its save last looked at them or wrote them. -/
def Undisturbed (state : State) : Event → Prop
  | .load job _ _ =>
    match state.jobs job with
    | .asked sent _ => Literal game state.columns sent
    | _ => True
  | .write job =>
    match state.jobs job with
    | .loaded _ seen => seen = state.writes
    | _ => True
  | .claim job taken =>
    match state.jobs job with
    | .written _ seen _ => taken = false → seen = state.writes
    | _ => True
  | .rebuild job outcome =>
    match state.jobs job with
    | .written _ seen _ => (outcome = .untouched ∨ outcome = .recovered) → seen = state.writes
    | _ => True
  | _ => True

/-! ### What a save makes of what it was sent -/

variable {game}

theorem unmaskSecrets_get {sent before : ConfigValues} {columns : StoredColumns}
    (literal : Literal game columns sent) : unmaskSecrets game sent before = sent := by
  have unmasked := literal.1
  unfold unmaskSecrets
  revert unmasked
  induction secretKeys game with
  | nil => exact fun _ => rfl
  | cons key keys inductionHypothesis =>
    intro unmasked
    rw [foldl_cons, if_neg (unmasked key mem_cons_self)]
    exact inductionHypothesis fun other member => unmasked other (mem_cons_of_mem _ member)

theorem takeFixed_get {sent onNode : ConfigValues} {columns : StoredColumns}
    (literal : Literal game columns sent) :
    takeFixed game (currentConfig game (storedSettings columns)) onNode sent = sent := by
  have rules : ∀ key ∈ (game.config.filter ConfigField.fixedAfterCreation).map ConfigField.key,
      (sent.has key && sent.get key !=
        (currentConfig game (storedSettings columns)).get key) = false := by
    intro key member
    obtain ⟨field, filtered, rfl⟩ := List.mem_map.mp member
    obtain ⟨there, fixed⟩ := mem_filter.mp filtered
    rcases literal.2 field there fixed with absent | same
    · rw [Record.has, absent]
      rfl
    · rw [same, bne_self_eq_false, Bool.and_false]
  unfold takeFixed
  revert rules
  induction (game.config.filter ConfigField.fixedAfterCreation).map ConfigField.key with
  | nil => exact fun _ => rfl
  | cons key keys inductionHypothesis =>
    intro rules
    rw [foldl_cons, rules key mem_cons_self, Bool.false_and, if_neg Bool.false_ne_true]
    exact inductionHypothesis fun other member => rules other (mem_cons_of_mem _ member)

/-- What a save has put together: the settings it read, and what it was sent over them. -/
structure Save.Fits (save : Save) (game : GameDefinition) : Prop where
  before : save.before = currentConfig game (storedSettings save.read)
  after : save.after = save.before.merge save.sent

variable {language test}

theorem prepareSave_fits {columns : StoredColumns} {facts : ServerFacts}
    {onNode sent : ConfigValues} {recreate : Bool} {save : Save}
    (literal : Literal game columns sent)
    (prepared : prepareSave language test game columns facts onNode sent recreate = .ok save) :
    save.Fits game ∧ save.read = columns ∧ save.sent = sent := by
  unfold prepareSave at prepared
  dsimp only at prepared
  rw [unmaskSecrets_get literal, takeFixed_get literal] at prepared
  by_cases problems : validateConfig language test game sent ≠ []
  · rw [if_pos problems] at prepared
    cases prepared
  · rw [if_neg problems] at prepared
    split at prepared
    · cases prepared
    · cases prepared
      exact ⟨⟨rfl, rfl⟩, rfl, rfl⟩

/-- A setting the save was not sent is what it was. -/
theorem Save.Fits.get_after {save : Save} (fits : save.Fits game) {key : String}
    {value : ConfigValue} (other : save.sent.get key = none)
    (stored : (storedSettings save.read).get key = some value) :
    save.after.get key = some value := by
  rw [fits.after, Record.get_merge, other, fits.before, get_currentConfig, stored]
  rfl

theorem Save.Fits.get_before {save : Save} (fits : save.Fits game) {key : String}
    {value : ConfigValue} (stored : (storedSettings save.read).get key = some value) :
    save.before.get key = some value := by
  rw [fits.before, get_currentConfig, stored]
  rfl

theorem Save.Fits.get_sent {save : Save} (fits : save.Fits game) {key : String}
    {value : ConfigValue} (sent : save.sent.get key = some value) :
    save.after.get key = some value := by
  rw [fits.after, Record.get_merge, sent]
  rfl

theorem Save.storedSettings_previous (save : Save) (key : String) :
    (storedSettings (save.previous game)).get key = (storedSettings save.read).get key := by
  unfold Save.previous
  split
  · rename_i nothing
    unfold storedSettings
    rw [nothing]
  · exact storedSettings_settingsData game _ key

/-! ### What every state has -/

/-- The save has written what it was sent, and has not taken it back. -/
def Job.Stands : Job → Prop
  | .written _ _ _ => True
  | .saved _ => True
  | _ => False

/-- The settings give what every other standing save was sent, for the keys that are only its. -/
def Others (state : State) (job : Nat) (settings : ConfigValues) : Prop :=
  ∀ other, other ≠ job → (state.jobs other).Stands → ∀ key value,
    (state.jobs other).sent.get key = some value → OnlyIts state other key →
    settings.get key = some value

/-- What a save knows, when nobody has written since it last looked. -/
def Job.Sound (state : State) (job : Nat) : Job → Prop
  | .loaded save seen => save.Fits game ∧ seen ≤ state.writes ∧
      (seen = state.writes → save.read = state.columns)
  | .written save seen _ => save.Fits game ∧ seen ≤ state.writes ∧
      (seen = state.writes → Others state job (storedSettings save.read))
  | _ => True

/-- The settings have what every standing save was sent, and every save knows what it read. -/
structure Sound (game : GameDefinition) (state : State) : Prop where
  stands : ∀ job, (state.jobs job).Stands → ∀ key value,
    (state.jobs job).sent.get key = some value → OnlyIts state job key →
    (storedSettings state.columns).get key = some value
  jobs : ∀ job, @Job.Sound game state job (state.jobs job)

theorem Sound.kept {state : State} (sound : Sound game state) : Kept state := by
  intro job sent saved key value has only
  have stands := sound.stands job
  rw [saved] at stands
  exact stands trivial key value has only

variable {state : State}

/-- A key that is only one save's later was so before, when no save has forgotten what it was
sent. -/
theorem OnlyIts.earlier {later : State} {job : Nat} {key : String} (only : OnlyIts later job key)
    (sent : ∀ other, (state.jobs other).sent.get key = none ∨
      (later.jobs other).sent = (state.jobs other).sent) : OnlyIts state job key := by
  intro other different
  rcases sent other with absent | same
  · exact absent
  · rw [← same]
    exact only other different

theorem Others.mono {later : State} {job : Nat} {settings : ConfigValues}
    (others : Others state job settings)
    (stands : ∀ other, other ≠ job → (later.jobs other).Stands →
      (state.jobs other).Stands ∧ (later.jobs other).sent = (state.jobs other).sent)
    (sent : ∀ other key, (state.jobs other).sent.get key = none ∨
      (later.jobs other).sent = (state.jobs other).sent) : Others later job settings := by
  intro other different now key value has only
  obtain ⟨before, same⟩ := stands other different now
  exact others other different before key value (same ▸ has) (only.earlier fun one => sent one key)

/-! ### One step and a run -/

/-- What a step does to the save it is a step of: it forgets nothing that it was sent, and it
stands afterwards only if it stood before. -/
structure GoesOn (old new : Job) : Prop where
  sent : new.sent = old.sent ∨ ∀ key, old.sent.get key = none
  stands : new.Stands → old.Stands ∧ new.sent = old.sent

theorem others_setJob {job one : Nat} {old new : Job} {settings : ConfigValues}
    (held : state.jobs job = old) (goes : GoesOn old new) (others : Others state one settings) :
    Others (state.setJob job new) one settings := by
  have sent : ∀ other key, (state.jobs other).sent.get key = none ∨
      ((state.setJob job new).jobs other).sent = (state.jobs other).sent := by
    intro other key
    by_cases mine : other = job
    · rw [mine, held]
      rcases goes.sent with same | absent
      · exact Or.inr (by simpa [State.setJob] using same)
      · exact Or.inl (absent key)
    · exact Or.inr (by simp [State.setJob, mine])
  refine others.mono (fun other _ stands => ?_) sent
  by_cases mine : other = job
  · rw [mine] at stands ⊢
    simp only [State.setJob, update_self] at stands ⊢
    rw [held]
    exact goes.stands stands
  · simp only [State.setJob, update_of_ne mine] at stands ⊢
    exact ⟨stands, trivial⟩

theorem onlyIts_setJob {job one : Nat} {old new : Job} {key : String} (held : state.jobs job = old)
    (goes : GoesOn old new) (only : OnlyIts (state.setJob job new) one key) :
    OnlyIts state one key := by
  refine only.earlier fun other => ?_
  by_cases mine : other = job
  · rw [mine, held]
    rcases goes.sent with same | absent
    · exact Or.inr (by simpa [State.setJob] using same)
    · exact Or.inl (absent key)
  · exact Or.inr (by simp [State.setJob, mine])

/-- A step that writes no settings. -/
theorem Sound.setJob {job : Nat} {old new : Job} (sound : Sound game state)
    (held : state.jobs job = old) (goes : GoesOn old new) (fits : @Job.Sound game state job new) :
    Sound game (state.setJob job new) := by
  have kept : ∀ one {at_ : Job}, @Job.Sound game state one at_ →
      @Job.Sound game (state.setJob job new) one at_ := by
    intro one at_ known
    cases at_ with
    | loaded save seen => exact known
    | written save seen claimed =>
      exact ⟨known.1, known.2.1, fun same => others_setJob held goes (known.2.2 same)⟩
    | idle => trivial
    | asked sent recreate => trivial
    | saved sent => trivial
    | ended sent => trivial
  constructor
  · intro one stands key value has only
    have before := onlyIts_setJob held goes only
    by_cases mine : one = job
    · rw [mine] at stands has before
      simp only [State.setJob, update_self] at stands has
      obtain ⟨stood, same⟩ := goes.stands stands
      exact sound.stands job (held ▸ stood) key value (held ▸ same ▸ has) before
    · simp only [State.setJob, update_of_ne mine] at stands has
      exact sound.stands one stands key value has before
  · intro one
    by_cases mine : one = job
    · rw [mine]
      simp only [State.setJob, update_self]
      exact kept job fits
    · simp only [State.setJob, update_of_ne mine]
      exact kept one (sound.jobs one)

/-- A write of settings that give what the other standing saves were sent. -/
theorem Sound.store {job : Nat} {new : Job} {columns : StoredColumns} (sound : Sound game state)
    (sent : new.sent = (state.jobs job).sent) (others : Others state job (storedSettings columns))
    (mine : new.Stands → ∀ key value, new.sent.get key = some value →
      (storedSettings columns).get key = some value)
    (fits : @Job.Sound game ((state.store columns).setJob job new) job new) :
    Sound game ((state.store columns).setJob job new) := by
  have only : ∀ {one key}, OnlyIts ((state.store columns).setJob job new) one key →
      OnlyIts state one key := by
    intro one key only
    refine only.earlier fun other => Or.inr ?_
    by_cases here : other = job
    · rw [here]
      simpa [State.setJob] using sent
    · simp [State.setJob, State.store, here]
  constructor
  · intro one stands key value has unique
    by_cases here : one = job
    · rw [here] at stands has
      simp only [State.setJob, update_self] at stands has
      exact mine stands key value has
    · simp only [State.setJob, State.store, update_of_ne here] at stands has
      exact others one here stands key value has (only unique)
  · intro one
    by_cases here : one = job
    · rw [here]
      simp only [State.setJob, update_self] at fits ⊢
      exact fits
    · simp only [State.setJob, State.store, update_of_ne here]
      have known := sound.jobs one
      cases at_ : state.jobs one with
      | loaded save seen =>
        rw [at_] at known
        exact ⟨known.1, Nat.le_succ_of_le known.2.1,
          fun same => absurd (same ▸ known.2.1) (Nat.not_succ_le_self _)⟩
      | written save seen claimed =>
        rw [at_] at known
        exact ⟨known.1, Nat.le_succ_of_le known.2.1,
          fun same => absurd (same ▸ known.2.1) (Nat.not_succ_le_self _)⟩
      | idle => trivial
      | asked sent recreate => trivial
      | saved sent => trivial
      | ended sent => trivial

/-- The settings a standing save reads give what every other standing save was sent. -/
theorem Sound.others (sound : Sound game state) (job : Nat) :
    Others state job (storedSettings state.columns) :=
  fun other _ stands key value has only => sound.stands other stands key value has only

theorem goesOn_over {old : Job} : GoesOn old (.ended old.sent) :=
  ⟨Or.inl rfl, fun stands => stands.elim⟩

theorem sound_step {next : State} {event : Event} (sound : Sound game state)
    (undisturbed : Undisturbed game state event)
    (taken : step language test game state event = some next) : Sound game next := by
  cases event with
  | ask job sent recreate =>
    simp only [step] at taken
    split at taken
    · rename_i idle
      cases taken
      exact sound.setJob idle ⟨Or.inr fun _ => rfl, fun stands => stands.elim⟩ trivial
    · cases taken
  | load job facts onNode =>
    simp only [step] at taken
    split at taken
    · rename_i sent recreate asked
      simp only [Undisturbed, asked] at undisturbed
      split at taken
      · rename_i save prepared
        cases taken
        obtain ⟨fits, read, same⟩ := prepareSave_fits undisturbed prepared
        exact sound.setJob asked ⟨Or.inl same, fun stands => stands.elim⟩
          ⟨fits, Nat.le_refl _, fun _ => read⟩
      · cases taken
        exact sound.setJob asked ⟨Or.inl rfl, fun stands => stands.elim⟩ trivial
    · cases taken
  | write job =>
    simp only [step] at taken
    split at taken
    · rename_i save seen loaded
      have known := sound.jobs job
      simp only [Undisturbed, loaded] at undisturbed
      rw [loaded] at known
      obtain ⟨fits, -, read⟩ := known
      cases taken
      have reads := read undisturbed
      have others : Others state job (storedSettings save.read) := reads ▸ sound.others job
      have sent : (Job.written save (state.writes + 1) false).sent = (state.jobs job).sent := by
        rw [loaded]
        rfl
      have after : Others state job (storedSettings (settingsData game save.after)) := by
        intro other different stands key value has only
        rw [storedSettings_settingsData]
        have absent := only job (Ne.symm different)
        rw [loaded] at absent
        exact fits.get_after absent (others other different stands key value has only)
      refine sound.store sent after (fun _ key value has => ?_) ⟨fits, Nat.le_refl _, fun _ => ?_⟩
      · rw [storedSettings_settingsData]
        exact fits.get_sent has
      · refine others.mono (fun other different stands => ?_) fun other key => ?_
        · simp only [State.setJob, State.store, update_of_ne different] at stands ⊢
          exact ⟨stands, trivial⟩
        · by_cases here : other = job
          · rw [here]
            exact Or.inr (by simpa [State.setJob] using sent)
          · exact Or.inr (by simp [State.setJob, State.store, here])
    · cases taken
  | writeFiles job done =>
    simp only [step] at taken
    split at taken
    · rename_i save seen written
      split at taken
      · cases taken
      · cases taken
        cases done with
        | true => exact sound.setJob written ⟨Or.inl rfl, fun _ => ⟨trivial, rfl⟩⟩ trivial
        | false => exact sound.setJob written goesOn_over trivial
    · cases taken
  | claim job took =>
    simp only [step] at taken
    split at taken
    · rename_i save seen written
      have known := sound.jobs job
      simp only [Undisturbed, written] at undisturbed
      rw [written] at known
      obtain ⟨fits, early, others⟩ := known
      split at taken
      · cases taken
      · split at taken
        · cases taken
          exact sound.setJob written ⟨Or.inl rfl, fun _ => ⟨trivial, rfl⟩⟩
            ⟨fits, early, others⟩
        · rename_i refused
          cases taken
          have read := others (undisturbed (Bool.not_eq_true _ ▸ refused))
          have sent : (Job.ended save.sent).sent = (state.jobs job).sent := by
            rw [written]
            rfl
          refine sound.store sent ?_ (fun stands => stands.elim) trivial
          intro other different stands key value has only
          rw [storedSettings_settingsData]
          exact fits.get_before (read other different stands key value has only)
    · cases taken
  | rebuild job outcome =>
    simp only [step] at taken
    split at taken
    · rename_i save seen written
      have known := sound.jobs job
      simp only [Undisturbed, written] at undisturbed
      rw [written] at known
      obtain ⟨fits, early, others⟩ := known
      have back : seen = state.writes →
          Sound game ((state.store (save.previous game)).setJob job (.ended save.sent)) := by
        intro same
        have sent : (Job.ended save.sent).sent = (state.jobs job).sent := by
          rw [written]
          rfl
        refine sound.store sent ?_ (fun stands => stands.elim) trivial
        intro other different stands key value has only
        rw [save.storedSettings_previous]
        exact others same other different stands key value has only
      cases outcome with
      | done =>
        cases taken
        exact sound.setJob written ⟨Or.inl rfl, fun _ => ⟨trivial, rfl⟩⟩ trivial
      | lost =>
        cases taken
        exact sound.setJob written goesOn_over trivial
      | untouched =>
        cases taken
        exact back (undisturbed (Or.inl rfl))
      | recovered =>
        cases taken
        exact back (undisturbed (Or.inr rfl))
    · cases taken
  | stop job =>
    simp only [step] at taken
    split at taken
    · cases taken
    · cases taken
    · cases taken
    · cases taken
      exact sound.setJob rfl goesOn_over trivial

/-- A server with nobody saving. -/
def start (columns : StoredColumns) : State := ⟨columns, fun _ => .idle, 0⟩

theorem sound_start (columns : StoredColumns) : Sound game (start columns) :=
  ⟨fun _ stands => stands.elim, fun _ => trivial⟩

end

/-- In a run of saves each of which means what it sends and writes settings that nobody has
written since it last looked, every save that succeeds keeps what it was sent. -/
theorem saves_kept (language : Language) (test : PatternTest) (game : GameDefinition)
    (columns : StoredColumns) (events : List Event)
    (undisturbed : Systems.Meets (step language test game) (Undisturbed game) (start columns)
      events) :
    Systems.Along (step language test game) Kept (start columns) events :=
  (Systems.along_of_meets
    (fun _ _ _ sound undisturbed taken => sound_step sound undisturbed taken)
    (sound_start columns) undisturbed).mono fun _ sound => sound.kept

/-! ### A run that is kept, and one that is not -/

/-- A game with two settings in one file. -/
def twoSettings : GameDefinition :=
  { id := "game", name := "Game"
    config := [
      { key := "motd", label := "Message", type := .string, default := .string ['a']
        target := .properties "server.properties" "motd".toList none false false },
      { key := "seed", label := "Seed", type := .string, default := .string ['b']
        target := .properties "server.properties" "level-seed".toList none false false }] }

def sends (key : String) : ConfigValues := .ofEntries [(key, .string ['x'])]

def facts : ServerFacts := ⟨none, false, true, none⟩

/-- One save after another. -/
def inTurn : List Event :=
  [.ask 0 (sends "motd") false, .load 0 facts .empty, .write 0, .writeFiles 0 true,
    .ask 1 (sends "seed") false, .load 1 facts .empty, .write 1, .writeFiles 1 true]

theorem State.jobs_setJob_of_ne {state : State} {job other : Nat} {new : Job}
    (different : other ≠ job) : (state.setJob job new).jobs other = state.jobs other :=
  update_of_ne different _ _

theorem State.jobs_store (state : State) (columns : StoredColumns) :
    (state.store columns).jobs = state.jobs := rfl

/-- Two saves that both read before either writes. -/
def atOnce : List Event :=
  [.ask 0 (sends "motd") false, .ask 1 (sends "seed") false, .load 0 facts .empty,
    .load 1 facts .empty, .write 0, .write 1, .writeFiles 0 true, .writeFiles 1 true]

theorem literal_twoSettings (columns : StoredColumns) (sent : ConfigValues) :
    Literal twoSettings columns sent := by
  refine ⟨fun key member => ?_, fun field member fixed => ?_⟩
  · have none_ : secretKeys twoSettings = [] := by decide
    rw [none_] at member
    cases member
  · have none_ : ∀ field ∈ twoSettings.config, field.fixedAfterCreation = false := by decide
    rw [none_ field member] at fixed
    cases fixed

theorem saves_kept_inTurn :
    Systems.Along (step ascii (fun _ _ => true) twoSettings) Kept (start ⟨none, none⟩) inTurn := by
  refine saves_kept ascii (fun _ _ => true) twoSettings ⟨none, none⟩ inTurn ?_
  refine Systems.meets_cons trivial rfl ?_
  refine Systems.meets_cons (literal_twoSettings _ _) rfl ?_
  refine Systems.meets_cons rfl rfl ?_
  refine Systems.meets_cons trivial rfl ?_
  refine Systems.meets_cons trivial rfl ?_
  refine Systems.meets_cons (literal_twoSettings _ _) rfl ?_
  refine Systems.meets_cons rfl rfl ?_
  exact ⟨trivial, fun next taken => trivial⟩

theorem second_save_undoes_the_first :
    ¬ ∀ events, Systems.Along (step ascii (fun _ _ => true) twoSettings) Kept
      (start ⟨none, none⟩) events := by
  intro always
  have kept := Systems.along_last (always atOnce) rfl
  have stored := kept 0 (sends "motd") rfl "motd" (.string ['x']) rfl fun other different => ?_
  · have lost : ((Systems.run (step ascii (fun _ _ => true) twoSettings) (start ⟨none, none⟩)
        atOnce).bind fun state => (storedSettings state.columns).get "motd") =
        some (.string ['a']) := rfl
    have both := stored.symm.trans lost
    cases both
  · by_cases second : other = 1
    · rw [second]
      rfl
    · simp only [State.jobs_setJob_of_ne different, State.jobs_setJob_of_ne second,
        State.jobs_store]
      rfl

end Geeboard.Games.Saves
