/-
This file is the change of a node's token while the node stays in service.

The panel makes a new token and sends it to the agent over the channel the old one
authenticates. The agent saves the new token beside the old one and accepts both;
the panel records the new one and then tells the agent, with it, to forget the
old. Requests and replies can be lost or late, and either side can be restarted
between any two of its steps.
-/

import Geeboard.Systems.Steps
import Geeboard.Text.Lines
import Mathlib.Data.List.Perm.Subperm

namespace Geeboard.Rotation

open List

abbrev Token := String

/-! ### The agent -/

/-- What the agent keeps of its tokens in its settings file. -/
structure AgentFile where
  token : Token
  previousToken : Option Token
  deriving DecidableEq, Repr

/-- The part of the agent's configuration that is about its token. -/
structure Config where
  token : Token
  previousToken : Option Token
  tokenFromEnvironment : Bool
  deriving DecidableEq, Repr

/-- The agent: what it has in memory and what it has on disk. -/
structure Agent where
  config : Config
  file : Option AgentFile
  deriving DecidableEq, Repr

/-- Every token a request may present right now. -/
def acceptedTokens (config : Config) : List Token :=
  match config.previousToken with
  | some previous => [config.token, previous]
  | none => [config.token]

/-- Why a rotation is refused. -/
inductive RotationError where
  | length | environment | same | fileGone | notSaved | commitWithNew
  deriving DecidableEq, Repr

/-- How far the agent gets with a request before it is restarted, if it is: before its write,
between the write and the memory, or to the end; or the write fails. -/
inductive Progress where
  | beforeWrite | writeFailed | afterWrite | done
  deriving DecidableEq, Repr

/-- The agent after a restart: its memory is what its file holds. -/
def Agent.restart (agent : Agent) : Agent :=
  match agent.file with
  | some saved =>
    if agent.config.tokenFromEnvironment then agent
    else
      { agent with config :=
          { agent.config with token := saved.token, previousToken := saved.previousToken } }
  | none => agent

/-- What a beginning of a rotation is checked for. -/
def checkBegin (agent : Agent) (next : Token) : Except RotationError AgentFile :=
  if Text.utf16Length next.toList < 32 || 256 < Text.utf16Length next.toList ||
      next.toList.any Text.isSpace then .error .length
  else if agent.config.tokenFromEnvironment then .error .environment
  else if next = agent.config.token then .error .same
  else match agent.file with
    | none => .error .fileGone
    | some saved => .ok saved

/-- The new token is saved beside the old one, and then both are accepted. -/
def beginRotation (agent : Agent) (next : Token) (progress : Progress) :
    Except RotationError Unit × Agent :=
  match checkBegin agent next, progress with
  | .error refusal, _ => (.error refusal, agent)
  | .ok _, .beforeWrite => (.error .notSaved, agent.restart)
  | .ok _, .writeFailed => (.error .notSaved, agent)
  | .ok saved, .afterWrite =>
    let written := { saved with token := next, previousToken := some agent.config.token }
    (.error .notSaved, { agent with file := some written }.restart)
  | .ok saved, .done =>
    let written := { saved with token := next, previousToken := some agent.config.token }
    let config :=
      { agent.config with token := next, previousToken := some agent.config.token }
    (.ok (), { config := config, file := some written })

/-- Presented with the new token, the old one is forgotten: whether there was one. -/
def commitRotation (agent : Agent) (presented : Token) (progress : Progress) :
    Except RotationError Bool × Agent :=
  match agent.config.previousToken with
  | none => (.ok false, agent)
  | some _ =>
    if presented = agent.config.token then
      let forgotten := agent.file.map fun saved => { saved with previousToken := none }
      match progress with
      | .beforeWrite => (.error .notSaved, agent.restart)
      | .writeFailed => (.error .notSaved, agent)
      | .afterWrite => (.error .notSaved, { agent with file := forgotten }.restart)
      | .done =>
        (.ok true, { config := { agent.config with previousToken := none }, file := forgotten })
    else (.error .commitWithNew, agent)

/-! ### The two parties and the wire -/

/-- A request of the panel, with the token it presents. -/
inductive Request where
  | begin_ (presented next : Token)
  | commit (presented : Token)
  deriving DecidableEq, Repr

def Request.presented : Request → Token
  | .begin_ presented _ => presented
  | .commit presented => presented

/-- Where a rotation of the panel's is. -/
inductive Phase where
  | idle
  | beginning (next : Token)
  | recording (next : Token)
  | announcing (next : Token)
  | committing (next : Token)
  deriving DecidableEq, Repr

/-- The panel's record and its rotation, the agent, the requests under way to the agent and the
ones it has let in, and the replies under way to the panel. `issued` are the tokens there have
been, for a new one is none of them. -/
structure State where
  recorded : Token
  phase : Phase
  agent : Agent
  sent : List Request
  admitted : List Request
  replies : List Request
  issued : List Token
  deriving DecidableEq, Repr

/-- What happens next. -/
inductive Event where
  | start (next : Token)
  | letIn (request : Request)
  | loseRequest (request : Request)
  | handle (request : Request) (progress : Progress)
  | loseReply (request : Request)
  | replyArrives
  | record
  | announce
  | leave
  | restartAgent
  deriving DecidableEq, Repr

/-- Thirty-two random bytes, in hexadecimal. -/
def isFresh (state : State) (next : Token) : Bool :=
  next.toList.length == 64 &&
    (next.toList.all fun char => char.isDigit || ('a' ≤ char && char ≤ 'f')) &&
    !state.issued.contains next

/-- The agent after it has handled a request, and whether it has answered that it was done. -/
def handled (agent : Agent) (request : Request) (progress : Progress) : Bool × Agent :=
  match request with
  | .begin_ _ next =>
    let (result, after) := beginRotation agent next progress
    (result.isOk, after)
  | .commit presented =>
    let (result, after) := commitRotation agent presented progress
    (result.isOk, after)

/-- One step of the panel, of the agent or of the wire. -/
def step (state : State) : Event → Option State
  | .start next =>
    if state.phase = .idle ∧ isFresh state next then
      some { state with
        phase := .beginning next
        sent := .begin_ state.recorded next :: state.sent
        issued := next :: state.issued }
    else none
  | .letIn request =>
    if request ∈ state.sent then
      some { state with
        sent := state.sent.erase request
        admitted :=
          if request.presented ∈ acceptedTokens state.agent.config then
            request :: state.admitted
          else state.admitted }
    else none
  | .loseRequest request =>
    if request ∈ state.sent then some { state with sent := state.sent.erase request } else none
  | .handle request progress =>
    if request ∈ state.admitted then
      let (answered, agent) := handled state.agent request progress
      some { state with
        agent := agent
        admitted := if progress = .beforeWrite ∨ progress = .afterWrite then []
          else state.admitted.erase request
        replies := if answered then request :: state.replies else state.replies }
    else none
  | .loseReply request =>
    if request ∈ state.replies then some { state with replies := state.replies.erase request }
    else none
  | .replyArrives =>
    match state.phase with
    | .beginning next =>
      if state.replies.any fun request => request == .begin_ state.recorded next then
        some { state with phase := .recording next }
      else none
    | _ => none
  | .record =>
    match state.phase with
    | .recording next => some { state with recorded := next, phase := .announcing next }
    | _ => none
  | .announce =>
    match state.phase with
    | .announcing next =>
      some { state with phase := .committing next, sent := .commit next :: state.sent }
    | _ => none
  | .leave => some { state with phase := .idle }
  | .restartAgent => some { state with agent := state.agent.restart, admitted := [] }

/-- The panel is not locked out: the token it has recorded is one the agent accepts. -/
def LetIn (state : State) : Prop := state.recorded ∈ acceptedTokens state.agent.config

instance (state : State) : Decidable (LetIn state) :=
  inferInstanceAs (Decidable (state.recorded ∈ acceptedTokens state.agent.config))

/-! ### What the agent does with a request -/

/-- The memory and the file say the same, and a token of the environment has no history. -/
structure Agent.Kept (agent : Agent) : Prop where
  file : agent.config.tokenFromEnvironment = false →
    agent.file = some ⟨agent.config.token, agent.config.previousToken⟩
  environment : agent.config.tokenFromEnvironment = true → agent.config.previousToken = none

theorem Agent.Kept.restart {agent : Agent} (kept : agent.Kept) : agent.restart = agent := by
  unfold Agent.restart
  split
  · rename_i saved there
    split
    · rfl
    · rename_i own
      rw [kept.file (Bool.not_eq_true _ ▸ own)] at there
      cases there
      rfl
  · rfl

/-- The agent that has taken a new token. -/
def Agent.taking (agent : Agent) (next : Token) : Agent :=
  { config := { agent.config with token := next, previousToken := some agent.config.token }
    file := some ⟨next, some agent.config.token⟩ }

/-- The agent that has forgotten the old one. -/
def Agent.forgetting (agent : Agent) : Agent :=
  { config := { agent.config with previousToken := none }
    file := agent.file.map fun saved => { saved with previousToken := none } }

/-- The beginning of a rotation gets past its checks and its write. -/
def Taken (agent : Agent) (next : Token) (progress : Progress) : Prop :=
  (checkBegin agent next).isOk = true ∧ (progress = .afterWrite ∨ progress = .done)

instance (agent : Agent) (next : Token) (progress : Progress) :
    Decidable (Taken agent next progress) :=
  inferInstanceAs (Decidable (_ ∧ _))

theorem of_checkBegin {agent : Agent} {next : Token} {saved : AgentFile}
    (checked : checkBegin agent next = .ok saved) :
    agent.config.tokenFromEnvironment = false ∧ agent.file = some saved := by
  unfold checkBegin at checked
  split at checked
  · cases checked
  · split at checked
    · cases checked
    · rename_i own
      split at checked
      · cases checked
      · split at checked
        · cases checked
        · rename_i there
          cases checked
          exact ⟨Bool.not_eq_true _ ▸ own, there⟩

theorem beginRotation_of_taken {agent : Agent} {next : Token} {progress : Progress}
    (taken : Taken agent next progress) :
    (beginRotation agent next progress).2 = agent.taking next ∧
      (beginRotation agent next progress).1.isOk = (progress == .done) := by
  obtain ⟨passes, written | written⟩ := taken
  · rcases checked : checkBegin agent next with refusal | saved
    · rw [checked] at passes
      cases passes
    · obtain ⟨own, there⟩ := of_checkBegin checked
      simp [beginRotation, checked, written, Agent.restart, own, Agent.taking, Except.isOk,
        Except.toBool]
  · rcases checked : checkBegin agent next with refusal | saved
    · rw [checked] at passes
      cases passes
    · simp [beginRotation, checked, written, Agent.taking, Except.isOk, Except.toBool]

theorem beginRotation_of_not_taken {agent : Agent} (kept : agent.Kept) {next : Token}
    {progress : Progress} (notTaken : ¬ Taken agent next progress) :
    (beginRotation agent next progress).2 = agent ∧
      (beginRotation agent next progress).1.isOk = false := by
  unfold beginRotation
  rcases checked : checkBegin agent next with refusal | saved
  · exact ⟨rfl, rfl⟩
  · have passes : (checkBegin agent next).isOk = true := by rw [checked]; rfl
    cases progress with
    | beforeWrite => exact ⟨kept.restart, rfl⟩
    | writeFailed => exact ⟨rfl, rfl⟩
    | afterWrite => exact absurd ⟨passes, .inl rfl⟩ notTaken
    | done => exact absurd ⟨passes, .inr rfl⟩ notTaken

theorem Agent.Kept.taking {agent : Agent} {next : Token} {progress : Progress}
    (taken : Taken agent next progress) : (agent.taking next).Kept := by
  rcases checked : checkBegin agent next with refusal | saved
  · rw [Taken, checked] at taken
    cases taken.1
  · obtain ⟨own, -⟩ := of_checkBegin checked
    refine ⟨fun _ => rfl, fun environment => ?_⟩
    rw [Agent.taking] at environment
    rw [own] at environment
    cases environment

theorem Agent.Kept.forgetting {agent : Agent} (kept : agent.Kept) : agent.forgetting.Kept := by
  refine ⟨fun own => ?_, fun _ => rfl⟩
  rw [Agent.forgetting, kept.file own]
  rfl

/-- A commit changes nothing, or has the agent forget the old token because the new one was
presented. -/
theorem commitRotation_cases {agent : Agent} (kept : agent.Kept) (presented : Token)
    (progress : Progress) :
    (commitRotation agent presented progress).2 = agent ∨
      (presented = agent.config.token ∧
        (commitRotation agent presented progress).2 = agent.forgetting) := by
  unfold commitRotation
  split
  · exact .inl rfl
  · rename_i previous there
    split
    · rename_i current
      dsimp only
      cases progress with
      | beforeWrite => exact .inl kept.restart
      | writeFailed => exact .inl rfl
      | afterWrite =>
        refine .inr ⟨current, ?_⟩
        have own : agent.config.tokenFromEnvironment = false := by
          refine Bool.eq_false_iff.mpr fun environment => ?_
          rw [kept.environment environment] at there
          cases there
        show Agent.restart _ = _
        rw [kept.file own]
        simp [Agent.restart, own, Agent.forgetting, kept.file own]
      | done => exact .inr ⟨current, rfl⟩
    · exact .inl rfl

/-! ### What holds between the two -/

/-- The requests under way, on the wire or in the agent. -/
def State.wire (state : State) : List Request := state.sent ++ state.admitted

/-- The token a request would have the agent take. -/
def Request.next : Request → Option Token
  | .begin_ _ next => some next
  | .commit _ => none

/-- The new tokens that requests under way would have the agent take. -/
def pending (state : State) : List Token := state.wire.filterMap Request.next

/-- The token has been given to somebody already. -/
def Given (state : State) (token : Token) : Prop :=
  token = state.recorded ∨ token ∈ acceptedTokens state.agent.config ∨
    (∃ presented, .begin_ presented token ∈ state.replies) ∨
    state.phase = .recording token ∨ state.phase = .announcing token ∨ .commit token ∈ state.wire

/-- What holds of the panel, the agent and the wire as long as every taken token was sent by a
panel that had recorded the agent's current one. -/
structure Sound (state : State) : Prop where
  kept : state.agent.Kept
  distinct : (pending state).Nodup
  fresh : ∀ next ∈ pending state, ¬ Given state next
  known : ∀ token, token ∈ pending state ∨ Given state token ∨ state.phase = .beginning token →
    token ∈ state.issued
  answered : ∀ presented next, state.phase = .beginning next →
    .begin_ presented next ∈ state.replies → next = state.agent.config.token
  beginning : ∀ next, state.phase = .beginning next → next ≠ state.recorded
  recording : ∀ next, state.phase = .recording next →
    next = state.agent.config.token ∧ next ≠ state.recorded
  announcing : ∀ next, state.phase = .announcing next → next = state.recorded
  commits : .commit state.agent.config.token ∈ state.wire →
    state.recorded = state.agent.config.token

theorem token_accepted (config : Config) : config.token ∈ acceptedTokens config := by
  unfold acceptedTokens
  split
  · exact mem_cons_self
  · exact mem_cons_self

/-- Fewer requests and replies under way, and no more tokens accepted: nothing new has to be
said. -/
theorem Sound.less {state next : State} (sound : Sound state)
    (wire : List.Subperm next.wire state.wire)
    (replies : ∀ presented token, .begin_ presented token ∈ next.replies →
      .begin_ presented token ∈ state.replies)
    (kept : next.agent.Kept) (token : next.agent.config.token = state.agent.config.token)
    (accepted : acceptedTokens next.agent.config ⊆ acceptedTokens state.agent.config)
    (recorded : next.recorded = state.recorded) (issued : next.issued = state.issued)
    (phase : next.phase = state.phase ∨ next.phase = .idle) : Sound next := by
  have fewer : List.Subperm (pending next) (pending state) := by
    obtain ⟨middle, perm, sublist⟩ := wire
    exact ⟨_, perm.filterMap Request.next, sublist.filterMap Request.next⟩
  have distinct : (pending next).Nodup := by
    obtain ⟨middle, perm, sublist⟩ := fewer
    exact perm.nodup_iff.mp (sound.distinct.sublist sublist)
  have phases : ∀ other, other ≠ .idle → next.phase = other → state.phase = other := by
    intro other notIdle here
    rcases phase with same | idle
    · rw [← same, here]
    · rw [idle] at here
      exact absurd here.symm notIdle
  have given : ∀ other, Given next other → Given state other := by
    rintro other (there | there | ⟨presented, there⟩ | there | there | there)
    · exact .inl (there.trans recorded)
    · exact .inr (.inl (accepted there))
    · exact .inr (.inr (.inl ⟨presented, replies _ _ there⟩))
    · exact .inr (.inr (.inr (.inl (phases _ (by simp) there))))
    · exact .inr (.inr (.inr (.inr (.inl (phases _ (by simp) there)))))
    · exact .inr (.inr (.inr (.inr (.inr (wire.subset there)))))
  refine ⟨kept, distinct, ?_, ?_, ?_, ?_, ?_, ?_, ?_⟩
  · exact fun other member here => sound.fresh other (fewer.subset member) (given other here)
  · intro other here
    rw [issued]
    refine sound.known other ?_
    rcases here with member | here | here
    · exact .inl (fewer.subset member)
    · exact .inr (.inl (given other here))
    · exact .inr (.inr (phases _ (by simp) here))
  · intro presented other here answered
    rw [token]
    exact sound.answered presented other (phases _ (by simp) here) (replies _ _ answered)
  · intro other here
    rw [recorded]
    exact sound.beginning other (phases _ (by simp) here)
  · intro other here
    rw [token, recorded]
    exact sound.recording other (phases _ (by simp) here)
  · intro other here
    rw [recorded]
    exact sound.announcing other (phases _ (by simp) here)
  · intro there
    rw [token] at there ⊢
    rw [recorded]
    exact sound.commits (wire.subset there)

/-! ### The steps -/

/-- A token is taken only from a panel that has recorded the agent's current one. -/
def TakesFromCurrent (state : State) : Event → Prop
  | .handle (.begin_ presented next) progress =>
    .begin_ presented next ∈ state.admitted → Taken state.agent next progress →
      state.recorded = state.agent.config.token
  | _ => True

section Steps

variable {state : State}

theorem sound_start {next : Token} (sound : Sound state)
    (fresh : next ∉ state.issued) :
    Sound { state with
      phase := .beginning next
      sent := .begin_ state.recorded next :: state.sent
      issued := next :: state.issued } := by
  have notGiven : ¬ Given state next := fun given => fresh (sound.known next (.inr (.inl given)))
  have given : ∀ other, Given { state with
      phase := .beginning next
      sent := .begin_ state.recorded next :: state.sent
      issued := next :: state.issued } other → Given state other := by
    rintro other (there | there | there | there | there | there)
    · exact .inl there
    · exact .inr (.inl there)
    · exact .inr (.inr (.inl there))
    · cases there
    · cases there
    · rcases mem_cons.mp there with same | there
      · cases same
      · exact .inr (.inr (.inr (.inr (.inr there))))
  refine ⟨sound.kept, ?_, ?_, ?_, ?_, ?_, ?_, ?_, ?_⟩
  · exact nodup_cons.mpr ⟨fun member => fresh (sound.known next (.inl member)),
      sound.distinct⟩
  · intro other member here
    rcases mem_cons.mp member with rfl | member
    · exact notGiven (given _ here)
    · exact sound.fresh other member (given other here)
  · rintro other (member | here | here)
    · rcases mem_cons.mp member with rfl | member
      · exact mem_cons_self
      · exact mem_cons_of_mem _ (sound.known other (.inl member))
    · exact mem_cons_of_mem _ (sound.known other (.inr (.inl (given other here))))
    · cases here
      exact mem_cons_self
  · intro presented other here answered
    cases here
    exact absurd (.inr (.inr (.inl ⟨presented, answered⟩))) notGiven
  · intro other here
    cases here
    exact fun same => notGiven (.inl same)
  · exact fun other here => nomatch here
  · exact fun other here => nomatch here
  · intro there
    rcases mem_cons.mp there with same | there
    · cases same
    · exact sound.commits there

theorem sound_replyArrives {next : Token} (sound : Sound state)
    (beginning : state.phase = .beginning next)
    (answered : .begin_ state.recorded next ∈ state.replies) :
    Sound { state with phase := .recording next } := by
  have given : ∀ other, Given { state with phase := .recording next } other →
      Given state other := by
    rintro other (there | there | there | there | there | there)
    · exact .inl there
    · exact .inr (.inl there)
    · exact .inr (.inr (.inl there))
    · cases there
      exact .inr (.inr (.inl ⟨_, answered⟩))
    · cases there
    · exact .inr (.inr (.inr (.inr (.inr there))))
  refine ⟨sound.kept, sound.distinct, fun other member here => sound.fresh other member
    (given other here), ?_, (fun _ _ here => nomatch here), (fun _ here => nomatch here), ?_,
    (fun _ here => nomatch here), sound.commits⟩
  · rintro other (member | here | here)
    · exact sound.known other (.inl member)
    · exact sound.known other (.inr (.inl (given other here)))
    · cases here
  · intro other here
    cases here
    exact ⟨sound.answered _ _ beginning answered, sound.beginning _ beginning⟩

theorem sound_record {next : Token} (sound : Sound state) (recording : state.phase = .recording next) :
    Sound { state with recorded := next, phase := .announcing next } := by
  have given : ∀ other, Given { state with recorded := next, phase := .announcing next } other →
      Given state other := by
    rintro other (there | there | there | there | there | there)
    · cases there
      exact .inr (.inr (.inr (.inl recording)))
    · exact .inr (.inl there)
    · exact .inr (.inr (.inl there))
    · cases there
    · cases there
      exact .inr (.inr (.inr (.inl recording)))
    · exact .inr (.inr (.inr (.inr (.inr there))))
  refine ⟨sound.kept, sound.distinct, fun other member here => sound.fresh other member
    (given other here), ?_, (fun _ _ here => nomatch here), (fun _ here => nomatch here),
    (fun _ here => nomatch here), ?_, ?_⟩
  · rintro other (member | here | here)
    · exact sound.known other (.inl member)
    · exact sound.known other (.inr (.inl (given other here)))
    · cases here
  · intro other here
    cases here
    rfl
  · exact fun _ => (sound.recording next recording).1

theorem sound_announce {next : Token} (sound : Sound state)
    (announcing : state.phase = .announcing next) :
    Sound { state with phase := .committing next, sent := .commit next :: state.sent } := by
  have given : ∀ other, Given { state with
      phase := .committing next, sent := .commit next :: state.sent } other →
      Given state other := by
    rintro other (there | there | there | there | there | there)
    · exact .inl there
    · exact .inr (.inl there)
    · exact .inr (.inr (.inl there))
    · cases there
    · cases there
    · rcases mem_cons.mp there with same | there
      · cases same
        exact .inr (.inr (.inr (.inr (.inl announcing))))
      · exact .inr (.inr (.inr (.inr (.inr there))))
  refine ⟨sound.kept, sound.distinct, fun other member here => sound.fresh other member
    (given other here), ?_, (fun _ _ here => nomatch here), (fun _ here => nomatch here),
    (fun _ here => nomatch here), (fun _ here => nomatch here), ?_⟩
  · rintro other (member | here | here)
    · exact sound.known other (.inl member)
    · exact sound.known other (.inr (.inl (given other here)))
    · cases here
  · intro there
    rcases mem_cons.mp there with same | there
    · exact (sound.announcing next announcing).symm.trans (Request.commit.inj same).symm
    · exact sound.commits there

/-- The agent takes a new token: everything stays in order if the panel had recorded its current
one, and just then the panel is still let in. -/
theorem taken_law {presented next : Token} (admitted replies : List Request)
    (sound : Sound state) (there : .begin_ presented next ∈ state.admitted)
    (left : List.Subperm (state.sent ++ admitted)
      (state.sent ++ state.admitted.erase (.begin_ presented next)))
    (said : ∀ other token, .begin_ other token ∈ replies →
      token = next ∨ .begin_ other token ∈ state.replies)
    (kept : (state.agent.taking next).Kept) :
    (LetIn { state with
        agent := state.agent.taking next, admitted := admitted, replies := replies } ↔
      state.recorded = state.agent.config.token) ∧
    (state.recorded = state.agent.config.token → Sound { state with
        agent := state.agent.taking next, admitted := admitted, replies := replies }) := by
  have wire : List.Perm state.wire (.begin_ presented next ::
      (state.sent ++ state.admitted.erase (.begin_ presented next))) :=
    ((perm_cons_erase there).append_left state.sent).trans perm_middle
  have all : List.Perm (pending state) (next ::
      (state.sent ++ state.admitted.erase (.begin_ presented next)).filterMap Request.next) :=
    wire.filterMap Request.next
  have apart := nodup_cons.mp (all.nodup_iff.mp sound.distinct)
  have isPending : next ∈ pending state := all.mem_iff.mpr mem_cons_self
  have notGiven := sound.fresh next isPending
  have fewer : List.Subperm ((state.sent ++ admitted).filterMap Request.next)
      ((state.sent ++ state.admitted.erase (.begin_ presented next)).filterMap
        Request.next) := by
    obtain ⟨middle, perm, sublist⟩ := left
    exact ⟨_, perm.filterMap Request.next, sublist.filterMap Request.next⟩
  have distinct : ((state.sent ++ admitted).filterMap Request.next).Nodup := by
    obtain ⟨middle, perm, sublist⟩ := fewer
    exact perm.nodup_iff.mp (apart.2.sublist sublist)
  have others : ∀ other ∈ (state.sent ++ admitted).filterMap Request.next,
      other ≠ next ∧ other ∈ pending state := by
    intro other member
    have still := fewer.subset member
    exact ⟨fun same => apart.1 (same ▸ still), all.mem_iff.mpr (mem_cons_of_mem _ still)⟩
  have requests : ∀ request ∈ state.sent ++ admitted, request ∈ state.wire := fun request member =>
    wire.mem_iff.mpr (mem_cons_of_mem _ (left.subset member))
  have notRecorded : state.recorded ≠ next := fun same => notGiven (.inl same.symm)
  constructor
  · show state.recorded ∈ [next, state.agent.config.token] ↔ _
    rw [mem_cons, or_iff_right notRecorded, mem_singleton]
  intro current
  have given : ∀ other, Given { state with
      agent := state.agent.taking next, admitted := admitted, replies := replies } other →
      other = next ∨ Given state other := by
    rintro other (here | here | ⟨presented', here⟩ | here | here | here)
    · exact .inr (.inl here)
    · rcases mem_cons.mp here with same | here
      · exact .inl same
      · rw [mem_singleton.mp here]
        exact .inr (.inr (.inl (token_accepted _)))
    · rcases said _ _ here with same | here
      · exact .inl same
      · exact .inr (.inr (.inr (.inl ⟨presented', here⟩)))
    · exact .inr (.inr (.inr (.inr (.inl here))))
    · exact .inr (.inr (.inr (.inr (.inr (.inl here)))))
    · exact .inr (.inr (.inr (.inr (.inr (.inr (requests _ here))))))
  refine ⟨kept, distinct, ?_, ?_, ?_, sound.beginning, ?_, sound.announcing, ?_⟩
  · intro other member here
    obtain ⟨different, wasPending⟩ := others other member
    rcases given other here with same | here
    · exact different same
    · exact sound.fresh other wasPending here
  · rintro other (member | here | here)
    · exact sound.known other (.inl (others other member).2)
    · rcases given other here with rfl | here
      · exact sound.known other (.inl isPending)
      · exact sound.known other (.inr (.inl here))
    · exact sound.known other (.inr (.inr here))
  · intro presented' other beginning answered
    rcases said _ _ answered with same | answered
    · exact same
    · have token := sound.answered presented' other beginning answered
      exact absurd (token.trans current.symm) (sound.beginning other beginning)
  · intro other recording
    obtain ⟨token, different⟩ := sound.recording other recording
    exact absurd (token.trans current.symm) different
  · intro here
    exact absurd (.inr (.inr (.inr (.inr (.inr (requests _ here)))))) notGiven

/-- One step: it leads to a state in which the panel is let in just when it takes no token from
a panel that had recorded another one, and then everything stays in order. -/
theorem step_law {next : State} {event : Event} (sound : Sound state) (letIn : LetIn state)
    (taken : step state event = some next) :
    (LetIn next ↔ TakesFromCurrent state event) ∧ (TakesFromCurrent state event → Sound next) := by
  have quiet : ∀ other : State, List.Subperm other.wire state.wire →
      (∀ presented token, .begin_ presented token ∈ other.replies →
        .begin_ presented token ∈ state.replies) →
      other.agent = state.agent → other.recorded = state.recorded →
      other.issued = state.issued → (other.phase = state.phase ∨ other.phase = .idle) →
      LetIn other ∧ Sound other := by
    intro other wire replies agent recorded issued phase
    refine ⟨?_, sound.less wire replies (agent ▸ sound.kept) (by rw [agent])
      (by rw [agent]; exact Subset.refl _) recorded issued phase⟩
    unfold LetIn
    rw [agent, recorded]
    exact letIn
  cases event with
  | start token =>
    simp only [step] at taken
    split at taken
    · rename_i allowed
      cases taken
      have fresh : token ∉ state.issued := by
        have := allowed.2
        simp only [isFresh, Bool.and_eq_true, Bool.not_eq_true', contains_eq_mem,
          decide_eq_false_iff_not] at this
        exact this.2
      exact ⟨iff_of_true letIn trivial, fun _ => sound_start sound fresh⟩
    · cases taken
  | letIn request =>
    simp only [step] at taken
    split at taken
    · rename_i sent
      cases taken
      obtain ⟨still, kept⟩ := quiet ({ state with
        sent := state.sent.erase request
        admitted := if request.presented ∈ acceptedTokens state.agent.config then
            request :: state.admitted else state.admitted })
        (by
          show List.Subperm (state.sent.erase request ++ _) (state.sent ++ state.admitted)
          split
          · have perm : List.Perm (state.sent.erase request ++ request :: state.admitted)
                (state.sent ++ state.admitted) :=
              perm_middle.trans ((perm_cons_erase sent).symm.append_right _)
            exact perm.subperm
          · exact (Sublist.append (erase_sublist ..) (Sublist.refl _)).subperm)
        (fun _ _ here => here) rfl rfl rfl (.inl rfl)
      exact ⟨iff_of_true still trivial, fun _ => kept⟩
    · cases taken
  | loseRequest request =>
    simp only [step] at taken
    split at taken
    · cases taken
      obtain ⟨still, kept⟩ := quiet ({ state with sent := state.sent.erase request })
        (Sublist.append (erase_sublist ..) (Sublist.refl _)).subperm
        (fun _ _ here => here) rfl rfl rfl (.inl rfl)
      exact ⟨iff_of_true still trivial, fun _ => kept⟩
    · cases taken
  | loseReply request =>
    simp only [step] at taken
    split at taken
    · cases taken
      obtain ⟨still, kept⟩ := quiet
        ({ state with replies := state.replies.erase request })
        (Subperm.refl _) (fun _ _ here => mem_of_mem_erase here) rfl rfl rfl (.inl rfl)
      exact ⟨iff_of_true still trivial, fun _ => kept⟩
    · cases taken
  | replyArrives =>
    simp only [step] at taken
    split at taken
    · rename_i token beginning
      split at taken
      · rename_i answered
        cases taken
        have there : .begin_ state.recorded token ∈ state.replies := by
          obtain ⟨request, member, same⟩ := List.any_eq_true.mp answered
          rw [← beq_iff_eq.mp same]
          exact member
        exact ⟨iff_of_true letIn trivial, fun _ => sound_replyArrives sound beginning there⟩
      · cases taken
    · cases taken
  | record =>
    simp only [step] at taken
    split at taken
    · rename_i token recording
      cases taken
      refine ⟨iff_of_true ?_ trivial, fun _ => sound_record sound recording⟩
      show token ∈ acceptedTokens state.agent.config
      rw [(sound.recording token recording).1]
      exact token_accepted _
    · cases taken
  | announce =>
    simp only [step] at taken
    split at taken
    · rename_i token announcing
      cases taken
      exact ⟨iff_of_true letIn trivial, fun _ => sound_announce sound announcing⟩
    · cases taken
  | leave =>
    cases taken
    obtain ⟨still, kept⟩ := quiet ({ state with phase := .idle }) (Subperm.refl _)
      (fun _ _ here => here) rfl rfl rfl (.inr rfl)
    exact ⟨iff_of_true still trivial, fun _ => kept⟩
  | restartAgent =>
    cases taken
    obtain ⟨still, kept⟩ := quiet
      ({ state with agent := state.agent.restart, admitted := [] })
      (Sublist.append (Sublist.refl _) (nil_sublist _)).subperm
      (fun _ _ here => here) sound.kept.restart rfl rfl (.inl rfl)
    exact ⟨iff_of_true still trivial, fun _ => kept⟩
  | handle request progress =>
    simp only [step] at taken
    split at taken
    · rename_i there
      have left : List.Subperm (state.sent ++ if progress = .beforeWrite ∨ progress = .afterWrite
          then [] else state.admitted.erase request)
            (state.sent ++ state.admitted.erase request) := by
        split
        · exact (Sublist.append (Sublist.refl _) (nil_sublist _)).subperm
        · exact Subperm.refl _
      have less : List.Subperm (state.sent ++ if progress = .beforeWrite ∨ progress = .afterWrite
          then [] else state.admitted.erase request) state.wire :=
        left.trans (Sublist.append (Sublist.refl _) (erase_sublist ..)).subperm
      cases request with
      | begin_ presented token =>
        by_cases takes : Taken state.agent token progress
        · obtain ⟨agent, answered⟩ := beginRotation_of_taken takes
          simp only [handled, agent] at taken
          cases taken
          have law := taken_law (if progress = .beforeWrite ∨ progress = .afterWrite
              then [] else state.admitted.erase (.begin_ presented token))
            (if (beginRotation state.agent token progress).1.isOk then
              .begin_ presented token :: state.replies else state.replies) sound there left (by
              intro other token' here
              split at here
              · rcases mem_cons.mp here with same | here
                · cases same
                  exact .inl rfl
                · exact .inr here
              · exact .inr here) (Agent.Kept.taking takes)
          refine ⟨law.1.trans ⟨fun same _ _ => same, fun same => same there takes⟩, ?_⟩
          exact fun same => law.2 (same there takes)
        · obtain ⟨agent, answered⟩ := beginRotation_of_not_taken sound.kept takes
          simp only [handled, agent, answered] at taken
          cases taken
          obtain ⟨still, kept⟩ := quiet ({ state with
              agent := state.agent
              admitted := if progress = .beforeWrite ∨ progress = .afterWrite then []
                else state.admitted.erase (.begin_ presented token) }) less
            (fun _ _ here => here) rfl rfl rfl (.inl rfl)
          exact ⟨iff_of_true still fun _ here => absurd here takes, fun _ => kept⟩
      | commit presented =>
        have wire : .commit presented ∈ state.wire := mem_append_right _ there
        have replies : ∀ other token, .begin_ other token ∈
            (if (handled state.agent (.commit presented) progress).1 then
              .commit presented :: state.replies else state.replies) →
            .begin_ other token ∈ state.replies := by
          intro other token here
          split at here
          · rcases mem_cons.mp here with same | here
            · cases same
            · exact here
          · exact here
        rcases commitRotation_cases sound.kept presented progress with agent | ⟨current, agent⟩
        · cases taken
          obtain ⟨still, kept⟩ := quiet ({ state with
              agent := (handled state.agent (.commit presented) progress).2
              admitted := if progress = .beforeWrite ∨ progress = .afterWrite then []
                else state.admitted.erase (.commit presented)
              replies := if (handled state.agent (.commit presented) progress).1 then
                .commit presented :: state.replies else state.replies }) less replies agent rfl
            rfl (.inl rfl)
          exact ⟨iff_of_true still trivial, fun _ => kept⟩
        · cases taken
          have recorded := sound.commits (current ▸ wire)
          have isNow : (handled state.agent (.commit presented) progress).2 =
              state.agent.forgetting := agent
          have letIn : state.recorded ∈ acceptedTokens
              (handled state.agent (.commit presented) progress).2.config := by
            rw [isNow, recorded]
            exact token_accepted _
          refine ⟨iff_of_true letIn trivial, fun _ => ?_⟩
          refine sound.less less replies ?_ ?_ ?_ rfl rfl (.inl rfl)
          · exact isNow ▸ sound.kept.forgetting
          · exact congrArg (fun agent => agent.config.token) isNow
          · show acceptedTokens (handled state.agent (.commit presented) progress).2.config ⊆ _
            rw [isNow]
            intro token here
            rw [mem_singleton.mp here]
            exact token_accepted _
    · cases taken

end Steps

/-- Nothing is under way, and the agent accepts the token the panel has recorded. -/
structure Rested (state : State) : Prop where
  phase : state.phase = .idle
  wire : state.wire = []
  replies : state.replies = []
  kept : state.agent.Kept
  issued : state.recorded ∈ state.issued ∧
    ∀ token ∈ acceptedTokens state.agent.config, token ∈ state.issued
  letIn : LetIn state

theorem Rested.sound {state : State} (rested : Rested state) : Sound state := by
  have nothing : pending state = [] := by
    rw [pending, rested.wire]
    rfl
  refine ⟨rested.kept, ?_, ?_, ?_, ?_, ?_, ?_, ?_, ?_⟩
  · rw [nothing]
    exact nodup_nil
  · intro next member
    rw [nothing] at member
    cases member
  · rintro token (member | (here | here | ⟨_, here⟩ | here | here | here) | here)
    · rw [nothing] at member
      cases member
    · exact here ▸ rested.issued.1
    · exact rested.issued.2 token here
    · rw [rested.replies] at here
      cases here
    · rw [rested.phase] at here
      cases here
    · rw [rested.phase] at here
      cases here
    · rw [rested.wire] at here
      cases here
    · rw [rested.phase] at here
      cases here
  · intro presented next here
    rw [rested.phase] at here
    cases here
  · intro next here
    rw [rested.phase] at here
    cases here
  · intro next here
    rw [rested.phase] at here
    cases here
  · intro next here
    rw [rested.phase] at here
    cases here
  · intro here
    rw [rested.wire] at here
    cases here

/-- Over every run of rotations, with any requests and replies lost or late and either side
restarted anywhere, the panel is let in throughout just when the agent never takes a new token
while the panel has recorded another one than its current one. -/
theorem let_in_throughout_iff (state : State) (events : List Event) (rested : Rested state) :
    Systems.Along step LetIn state events ↔ Systems.Meets step TakesFromCurrent state events := by
  refine @Systems.along_iff_meets _ _ step LetIn Sound _ ?_ ?_ ?_ _ _ rested.sound rested.letIn
  · exact fun state event next sound letIn condition taken => (step_law sound letIn taken).2 condition
  · exact fun state event next sound letIn taken => (step_law sound letIn taken).1
  · intro state event stuck
    cases event with
    | handle request progress =>
      cases request with
      | begin_ presented token =>
        intro there
        rw [step, if_pos there] at stuck
        cases stuck
      | commit presented => trivial
    | _ => trivial

/-! ### Two rotations -/

/-- A token of one letter over and over. -/
def tokenOf (letter : Char) : Token := String.ofList (List.replicate 64 letter)

/-- A node whose agent has the token the panel has recorded, and nothing under way. -/
def resting : State :=
  { recorded := tokenOf 'a', phase := .idle
    agent := ⟨⟨tokenOf 'a', none, false⟩, some ⟨tokenOf 'a', none⟩⟩
    sent := [], admitted := [], replies := [], issued := [tokenOf 'a'] }

theorem rested_resting : Rested resting :=
  ⟨rfl, rfl, rfl, ⟨fun _ => rfl, (fun own => nomatch own)⟩,
    ⟨mem_cons_self, fun _ member => member⟩, mem_cons_self⟩

/-- A rotation to the token `next` as far as the agent's taking it. -/
def begun (recorded next : Token) : List Event :=
  [.start next, .letIn (.begin_ recorded next), .handle (.begin_ recorded next) .done]

/-- One rotation, from its beginning to its end. -/
def rotated (recorded next : Token) : List Event :=
  begun recorded next ++
    [.replyArrives, .record, .announce, .letIn (.commit next), .handle (.commit next) .done,
      .leave]

theorem let_in_throughout_iff_rotated :
    Systems.Along step LetIn resting (rotated (tokenOf 'a') (tokenOf 'b')) ↔
      Systems.Meets step TakesFromCurrent resting (rotated (tokenOf 'a') (tokenOf 'b')) :=
  let_in_throughout_iff resting _ rested_resting

/-- A rotation whose reply is lost, and then another one: the agent has forgotten the token the
panel has recorded. -/
theorem lost_reply_locks_out :
    Rested resting ∧ ¬ Systems.Along step LetIn resting
      (begun (tokenOf 'a') (tokenOf 'b') ++
        [.loseReply (.begin_ (tokenOf 'a') (tokenOf 'b')), .leave] ++
        begun (tokenOf 'a') (tokenOf 'c')) := by
  refine ⟨rested_resting, fun along => ?_⟩
  rcases ends : Systems.run step resting (begun (tokenOf 'a') (tokenOf 'b') ++
      [.loseReply (.begin_ (tokenOf 'a') (tokenOf 'b')), .leave] ++
      begun (tokenOf 'a') (tokenOf 'c')) with _ | last
  · exact absurd ends (by decide +kernel)
  · have letIn : ∀ state ∈ Systems.run step resting (begun (tokenOf 'a') (tokenOf 'b') ++
        [.loseReply (.begin_ (tokenOf 'a') (tokenOf 'b')), .leave] ++
        begun (tokenOf 'a') (tokenOf 'c')), ¬ LetIn state := by decide +kernel
    exact letIn last ends (Systems.along_last along ends)

end Geeboard.Rotation
