/-
This file is about what a node's servers are promised of its memory and storage,
while servers are created, moved and given other limits at the same time.

Each of the three requests asks what is already promised, refuses when that and
its own size are more than the node has, and writes the row some statements
later. Nothing holds the room in between, so the promise can be given twice. A
request whose write still finds what it has counted keeps the node within what
it has, and a run of such requests does so all along.
-/

import Geeboard.Panel.Rows
import Geeboard.Systems.Steps
import Mathlib.Logic.Function.Basic

namespace Geeboard.Capacity

open List Option
open Panel (NodeId)

/-! ### Nodes and what is promised of them -/

/-- What a node has. -/
structure Totals where
  ramTotal : Nat
  cpuCores : Nat
  diskTotal : Nat
  deriving DecidableEq, Repr

/-- What a server is promised: gigabytes of memory, percent of a core, gigabytes of storage. -/
structure Size where
  memoryGb : Nat
  cpuLimit : Nat
  diskGb : Nat
  deriving DecidableEq, Repr

/-- A server's row, as far as its node's capacity goes. -/
structure Server where
  id : Nat
  node : NodeId
  size : Size
  deriving DecidableEq, Repr

/-- One measure of some servers together. -/
def sumOf (measure : Size → Nat) : List Server → Nat
  | [] => 0
  | server :: servers => measure server.size + sumOf measure servers

/-- The sizes of some servers together. -/
def total (servers : List Server) : Size :=
  ⟨sumOf Size.memoryGb servers, sumOf Size.cpuLimit servers, sumOf Size.diskGb servers⟩

theorem sumOf_append (measure : Size → Nat) (first second : List Server) :
    sumOf measure (first ++ second) = sumOf measure first + sumOf measure second := by
  induction first with
  | nil => exact (Nat.zero_add _).symm
  | cons server first inductionHypothesis =>
    rw [cons_append, sumOf, sumOf, inductionHypothesis, Nat.add_assoc]

theorem sumOf_le_of_sublist (measure : Size → Nat) {fewer more : List Server}
    (sublist : fewer.Sublist more) : sumOf measure fewer ≤ sumOf measure more := by
  induction sublist with
  | slnil => exact le_rfl
  | cons server _ inductionHypothesis => exact inductionHypothesis.trans (Nat.le_add_left _ _)
  | cons_cons server _ inductionHypothesis => exact Nat.add_le_add_left inductionHypothesis _

/-! ### Admission -/

inductive Resource where
  | memory | cpu | storage
  deriving DecidableEq, Repr

/-- By how much a placement would put a node past what it has. -/
structure CapacityOver where
  ramGb : Nat
  cpuPct : Nat
  diskGb : Nat
  deriving DecidableEq, Repr

def capacityOver (node : Totals) (used input : Size) : CapacityOver :=
  ⟨used.memoryGb + input.memoryGb - node.ramTotal,
    used.cpuLimit + input.cpuLimit - node.cpuCores * 100,
    used.diskGb + input.diskGb - node.diskTotal⟩

/-- What a node has no room for, of one more server of this size. Storage is not overcommitted. -/
def capacityRefusal (node : Totals) (used input : Size) (overcommit : Bool) : Option Resource :=
  let over_ := capacityOver node used input
  if 0 < over_.ramGb && !overcommit then some .memory
  else if 0 < over_.cpuPct && !overcommit then some .cpu
  else if 0 < over_.diskGb then some .storage
  else none

theorem capacityRefusal_storage {node : Totals} {used input : Size} {overcommit : Bool}
    (admitted : capacityRefusal node used input overcommit = none) :
    used.diskGb + input.diskGb ≤ node.diskTotal := by
  unfold capacityRefusal capacityOver at admitted
  dsimp only at admitted
  split at admitted
  · cases admitted
  · split at admitted
    · cases admitted
    · split at admitted
      · cases admitted
      · omega

theorem capacityRefusal_memory {node : Totals} {used input : Size}
    (admitted : capacityRefusal node used input false = none) :
    used.memoryGb + input.memoryGb ≤ node.ramTotal := by
  unfold capacityRefusal capacityOver at admitted
  dsimp only at admitted
  split at admitted
  · cases admitted
  · rename_i room
    simp only [Bool.not_false, Bool.and_true, decide_eq_true_eq] at room
    omega

/-- The limits a server's settings are checked against. -/
structure SettingsLimits where
  memoryMaxGb : Nat
  cpuMax : Nat
  memoryAvailableGb : Nat
  memorySavedGb : Nat
  deriving DecidableEq, Repr

/-- The limits of a server, given its game's bounds and what the others on its node have. -/
def settingsLimitsFor (node : Totals) (others : Size) (memoryMaxGb cpuMax : Nat)
    (server : Server) : SettingsLimits :=
  ⟨memoryMaxGb, cpuMax, node.ramTotal - others.memoryGb, server.size.memoryGb⟩

def PLATFORM_FLOOR_memoryGb : Nat := 1

def PLATFORM_FLOOR_cpuLimit : Nat := 50

/-- The limits in a settings form that are refused. -/
def validateSettings (memoryLimit cpuLimit : Nat) (limits : SettingsLimits) : List Resource :=
  (if memoryLimit < PLATFORM_FLOOR_memoryGb ∨ limits.memoryMaxGb < memoryLimit then [.memory]
    else if max limits.memoryAvailableGb limits.memorySavedGb < memoryLimit then [.memory]
    else []) ++
  (if cpuLimit < PLATFORM_FLOOR_cpuLimit ∨ limits.cpuMax < cpuLimit then [.cpu] else [])

theorem validateSettings_memory {memoryLimit cpuLimit : Nat} {limits : SettingsLimits}
    (accepted : validateSettings memoryLimit cpuLimit limits = []) :
    memoryLimit ≤ max limits.memoryAvailableGb limits.memorySavedGb := by
  unfold validateSettings at accepted
  by_contra more
  rw [if_pos (Nat.lt_of_not_le more)] at accepted
  split at accepted
  · cases (append_eq_nil_iff.mp accepted).1
  · cases (append_eq_nil_iff.mp accepted).1

/-! ### The requests -/

/-- What a request that promises something knows so far. `counted` is what it found promised to
the others on the node when it asked. -/
inductive Job where
  | idle
  | asking (size : Size) (node : NodeId) (overcommit : Bool)
  | admitted (size : Size) (node : NodeId) (overcommit : Bool) (counted : Size)
  | installing (id : Nat)
  | leaving (server : Server) (target : NodeId)
  | moving (server : Server) (target : NodeId) (counted : Size)
  | switched (server : Server) (counted : Size)
  | saving (server : Server) (memoryLimit cpuLimit memoryMaxGb cpuMax : Nat)
  | checked (server : Server) (memoryLimit cpuLimit : Nat) (counted : Size)
  deriving DecidableEq, Repr

/-- The nodes, the servers, the requests, and the nodes on which a request was granted to go past
the memory there is. -/
structure State where
  nodes : NodeId → Totals
  servers : List Server
  jobs : Nat → Job
  nextServer : Nat
  overcommitted : List NodeId

namespace State

def row (state : State) (id : Nat) : Option Server :=
  state.servers.find? fun server => server.id == id

/-- What the servers of a node are promised together. -/
def capacityOf (state : State) (node : NodeId) : Size :=
  total (state.servers.filter fun server => server.node == node)

/-- The same without one of them. -/
def othersOn (state : State) (id : Nat) (node : NodeId) : Size :=
  total (state.servers.filter fun server => server.node == node && server.id != id)

def setJob (state : State) (job : Nat) (next : Job) : State :=
  { state with jobs := Function.update state.jobs job next }

/-- The row written, in the place of the one with its id. -/
def put (state : State) (server : Server) : State :=
  { state with servers := server :: state.servers.filter fun other => other.id != server.id }

def remove (state : State) (id : Nat) : State :=
  { state with servers := state.servers.filter fun other => other.id != id }

end State

/-- What happens next: to a create, to a move, to a save of limits, or to a server that is
deleted. A request can end anywhere, refused, failed or killed. -/
inductive Event where
  | create (job : Nat) (size : Size) (node : NodeId) (overcommit : Bool)
  | move (job id : Nat) (target : NodeId)
  | save (job id memoryLimit cpuLimit memoryMaxGb cpuMax : Nat)
  | check (job : Nat)
  | insert (job : Nat)
  | rollBack (job : Nat)
  | switch (job : Nat)
  | switchBack (job : Nat)
  | write (job : Nat)
  | leave (job : Nat)
  | delete (id : Nat)
  deriving DecidableEq, Repr

/-- The row an event writes, and where it is one of the panel's servers already, that server. -/
def writing (state : State) : Event → Option Server
  | .insert job =>
    match state.jobs job with
    | .admitted size node _ _ => some ⟨state.nextServer, node, size⟩
    | _ => none
  | .switch job =>
    match state.jobs job with
    | .moving server target _ =>
      (state.row server.id).map fun current => { current with node := target }
    | _ => none
  | .switchBack job =>
    match state.jobs job with
    | .switched server _ =>
      (state.row server.id).map fun current => { current with node := server.node }
    | _ => none
  | .write job =>
    match state.jobs job with
    | .checked server memoryLimit cpuLimit _ =>
      (state.row server.id).map fun current =>
        { current with size := ⟨memoryLimit, cpuLimit, current.size.diskGb⟩ }
    | _ => none
  | _ => none

/-- One step of one request. -/
def step (state : State) (event : Event) : Option State :=
  match event with
  | .create job size node overcommit =>
    match state.jobs job with
    | .idle => some (state.setJob job (.asking size node overcommit))
    | _ => none
  | .move job id target =>
    match state.jobs job, state.row id with
    | .idle, some server =>
      if target ≠ server.node then some (state.setJob job (.leaving server target)) else none
    | _, _ => none
  | .save job id memoryLimit cpuLimit memoryMaxGb cpuMax =>
    match state.jobs job, state.row id with
    | .idle, some server =>
      some (state.setJob job (.saving server memoryLimit cpuLimit memoryMaxGb cpuMax))
    | _, _ => none
  | .check job =>
    match state.jobs job with
    | .asking size node overcommit =>
      let used := state.capacityOf node
      match capacityRefusal (state.nodes node) used size overcommit with
      | none => some (state.setJob job (.admitted size node overcommit used))
      | some _ => some (state.setJob job .idle)
    | .leaving server target =>
      let used := state.capacityOf target
      match capacityRefusal (state.nodes target) used server.size false with
      | none => some (state.setJob job (.moving server target used))
      | some _ => some (state.setJob job .idle)
    | .saving server memoryLimit cpuLimit memoryMaxGb cpuMax =>
      let others := state.othersOn server.id server.node
      match validateSettings memoryLimit cpuLimit
          (settingsLimitsFor (state.nodes server.node) others memoryMaxGb cpuMax server) with
      | [] => some (state.setJob job (.checked server memoryLimit cpuLimit others))
      | _ :: _ => some (state.setJob job .idle)
    | _ => none
  | .insert job =>
    match state.jobs job, writing state event with
    | .admitted _ node overcommit _, some server =>
      some { (state.put server).setJob job (.installing server.id) with
        nextServer := state.nextServer + 1
        overcommitted := if overcommit then node :: state.overcommitted
          else state.overcommitted }
    | _, _ => none
  | .rollBack job =>
    match state.jobs job with
    | .installing id => some ((state.remove id).setJob job .idle)
    | _ => none
  | .switch job =>
    match state.jobs job with
    | .moving server _ _ =>
      match writing state event, state.row server.id with
      | some moved, some current =>
        some ((state.put moved).setJob job
          (.switched { current with node := server.node }
            (state.othersOn server.id server.node)))
      | _, _ => some (state.setJob job .idle)
    | _ => none
  | .switchBack job =>
    match state.jobs job with
    | .switched _ _ =>
      match writing state event with
      | some moved => some ((state.put moved).setJob job .idle)
      | none => some state
    | _ => none
  | .write job =>
    match state.jobs job with
    | .checked _ _ _ _ =>
      match writing state event with
      | some changed => some ((state.put changed).setJob job .idle)
      | none => some (state.setJob job .idle)
    | _ => none
  | .leave job => some (state.setJob job .idle)
  | .delete id => some (state.remove id)

/-! ### What is to hold, and when it does -/

/-- No node is promised more storage than it has, and none more memory, where no request was
granted to go past it. -/
def Within (state : State) : Prop :=
  ∀ node, (state.capacityOf node).diskGb ≤ (state.nodes node).diskTotal ∧
    (node ∉ state.overcommitted →
      (state.capacityOf node).memoryGb ≤ (state.nodes node).ramTotal)

/-- The others on the node are promised no more than was counted. -/
def NoMoreThan (state : State) (id : Nat) (node : NodeId) (counted : Size) : Prop :=
  (state.othersOn id node).diskGb ≤ counted.diskGb ∧
    (node ∉ state.overcommitted → (state.othersOn id node).memoryGb ≤ counted.memoryGb)

/-- The server is no larger than it was. -/
def NoLarger (current server : Server) : Prop :=
  current.size.memoryGb ≤ server.size.memoryGb ∧ current.size.diskGb ≤ server.size.diskGb

/-- The write finds what its request has counted: the others on the node are promised no more,
and the server itself is as it was read. -/
def AsCounted (state : State) : Event → Prop
  | .insert job =>
    match state.jobs job with
    | .admitted _ node _ counted => NoMoreThan state state.nextServer node counted
    | _ => True
  | .switch job =>
    match state.jobs job with
    | .moving server target counted =>
      ∀ current, state.row server.id = some current →
        NoMoreThan state server.id target counted ∧ current.node = server.node ∧
          NoLarger current server
    | _ => True
  | .switchBack job =>
    match state.jobs job with
    | .switched server counted =>
      ∀ current, state.row server.id = some current →
        NoMoreThan state server.id server.node counted ∧ NoLarger current server
    | _ => True
  | .write job =>
    match state.jobs job with
    | .checked server _ _ counted =>
      ∀ current, state.row server.id = some current →
        NoMoreThan state server.id server.node counted ∧ current.node = server.node ∧
          server.size.memoryGb ≤ current.size.memoryGb
    | _ => True
  | _ => True

/-! ### What the sums are after a write -/

section Sums

variable (measure : Size → Nat) (state : State)

/-- What a node's servers are promised of one measure. -/
def State.promised (node : NodeId) : Nat :=
  sumOf measure (state.servers.filter fun server => server.node == node)

def State.promisedOthers (id : Nat) (node : NodeId) : Nat :=
  sumOf measure (state.servers.filter fun server => server.node == node && server.id != id)

theorem promisedOthers_le (id : Nat) (node : NodeId) :
    state.promisedOthers measure id node ≤ state.promised measure node := by
  refine sumOf_le_of_sublist measure (monotone_filter_right _ fun server both => ?_)
  exact (Bool.and_eq_true_iff.mp both).1

theorem promised_put (server : Server) (node : NodeId) :
    (state.put server).promised measure node =
      (if server.node = node then measure server.size else 0) +
        state.promisedOthers measure server.id node := by
  unfold State.promised State.promisedOthers State.put
  rw [filter_cons, List.filter_filter]
  by_cases here : server.node = node
  · rw [if_pos (beq_iff_eq.mpr here), if_pos here]
    rfl
  · rw [if_neg (by simpa using here), if_neg here, Nat.zero_add]

theorem promised_remove_le (id : Nat) (node : NodeId) :
    (state.remove id).promised measure node ≤ state.promised measure node :=
  sumOf_le_of_sublist measure (filter_sublist.filter _)

variable {state}

/-- A server of the node and the others are not promised more than all of them. -/
theorem promised_member {server : Server} (member : server ∈ state.servers) :
    measure server.size + state.promisedOthers measure server.id server.node ≤
      state.promised measure server.node := by
  obtain ⟨before, after, split⟩ := append_of_mem member
  unfold State.promised State.promisedOthers
  rw [split, filter_append, filter_append, filter_cons_of_neg (by simp),
    filter_cons_of_pos (by simp), sumOf_append, sumOf_append, sumOf]
  have first := sumOf_le_of_sublist measure (monotone_filter_right before
    fun other (both : (other.node == server.node && other.id != server.id) = true) =>
      (Bool.and_eq_true_iff.mp both).1)
  have second := sumOf_le_of_sublist measure (monotone_filter_right after
    fun other (both : (other.node == server.node && other.id != server.id) = true) =>
      (Bool.and_eq_true_iff.mp both).1)
  omega

end Sums

variable {state : State}

theorem State.mem_of_row {id : Nat} {server : Server} (found : state.row id = some server) :
    server ∈ state.servers ∧ server.id = id :=
  ⟨mem_of_find?_eq_some found, by simpa using find?_some found⟩

/-- A server that is written where there is room for it leaves every node within what it has. -/
theorem Within.put {server : Server} (within : Within state) (granted : List NodeId)
    (more : ∀ node ∈ state.overcommitted, node ∈ granted)
    (storage : server.size.diskGb + (state.othersOn server.id server.node).diskGb ≤
      (state.nodes server.node).diskTotal) (memory : server.node ∉ granted →
      server.size.memoryGb + (state.othersOn server.id server.node).memoryGb ≤
        (state.nodes server.node).ramTotal) :
    Within { state.put server with overcommitted := granted } := by
  intro node
  have disk : ((state.put server).capacityOf node).diskGb =
      (if server.node = node then server.size.diskGb else 0) +
        (state.othersOn server.id node).diskGb := promised_put Size.diskGb state server node
  have ram : ((state.put server).capacityOf node).memoryGb =
      (if server.node = node then server.size.memoryGb else 0) +
        (state.othersOn server.id node).memoryGb := promised_put Size.memoryGb state server node
  have diskOthers : (state.othersOn server.id node).diskGb ≤ (state.capacityOf node).diskGb :=
    promisedOthers_le Size.diskGb state server.id node
  have ramOthers : (state.othersOn server.id node).memoryGb ≤
      (state.capacityOf node).memoryGb := promisedOthers_le Size.memoryGb state server.id node
  show ((state.put server).capacityOf node).diskGb ≤ (state.nodes node).diskTotal ∧
    (node ∉ granted → ((state.put server).capacityOf node).memoryGb ≤ (state.nodes node).ramTotal)
  rw [disk, ram]
  by_cases here : server.node = node
  · rw [if_pos here, if_pos here]
    exact here ▸ ⟨storage, memory⟩
  · rw [if_neg here, if_neg here, Nat.zero_add, Nat.zero_add]
    exact ⟨diskOthers.trans (within node).1, fun outside =>
      ramOthers.trans ((within node).2 fun member => outside (more node member))⟩

theorem Within.remove (within : Within state) (id : Nat) :
    Within (state.remove id) := fun node =>
  ⟨(promised_remove_le Size.diskGb state id node).trans (within node).1, fun outside =>
    (promised_remove_le Size.memoryGb state id node).trans ((within node).2 outside)⟩

/-! ### What a request knows -/

/-- What a request was admitted on. -/
def Job.Admitted (state : State) : Job → Prop
  | .admitted size node overcommit counted =>
    counted.diskGb + size.diskGb ≤ (state.nodes node).diskTotal ∧
      (overcommit = false → counted.memoryGb + size.memoryGb ≤ (state.nodes node).ramTotal)
  | .moving server target counted =>
    counted.diskGb + server.size.diskGb ≤ (state.nodes target).diskTotal ∧
      counted.memoryGb + server.size.memoryGb ≤ (state.nodes target).ramTotal
  | .switched server counted =>
    counted.diskGb + server.size.diskGb ≤ (state.nodes server.node).diskTotal ∧
      (server.node ∉ state.overcommitted →
        counted.memoryGb + server.size.memoryGb ≤ (state.nodes server.node).ramTotal)
  | .checked server memoryLimit _ counted =>
    memoryLimit ≤
      max ((state.nodes server.node).ramTotal - counted.memoryGb) server.size.memoryGb
  | _ => True

/-- The nodes are within what they have, and every request was admitted on what it knows. -/
structure Sound (state : State) : Prop where
  within : Within state
  jobs : ∀ job, (state.jobs job).Admitted state

theorem Job.Admitted.mono {later : State} {job : Job} (admitted : job.Admitted state)
    (nodes : later.nodes = state.nodes)
    (more : ∀ node ∈ state.overcommitted, node ∈ later.overcommitted) : job.Admitted later := by
  cases job with
  | admitted size node overcommit counted =>
    unfold Job.Admitted at admitted ⊢
    rw [nodes]
    exact admitted
  | moving server target counted =>
    unfold Job.Admitted at admitted ⊢
    rw [nodes]
    exact admitted
  | switched server counted =>
    unfold Job.Admitted at admitted ⊢
    rw [nodes]
    exact ⟨admitted.1, fun outside => admitted.2 fun member => outside (more _ member)⟩
  | checked server memoryLimit cpuLimit counted =>
    unfold Job.Admitted at admitted ⊢
    rw [nodes]
    exact admitted
  | idle => trivial
  | asking size node overcommit => trivial
  | installing id => trivial
  | leaving server target => trivial
  | saving server memoryLimit cpuLimit memoryMaxGb cpuMax => trivial

/-- A state with the rows of another one and one request's knowledge changed. -/
theorem Sound.of_rows {later : State} (sound : Sound state) (within : Within later)
    (nodes : later.nodes = state.nodes)
    (more : ∀ node ∈ state.overcommitted, node ∈ later.overcommitted) (job : Nat) {next : Job}
    (jobs : later.jobs = Function.update state.jobs job next) (fits : next.Admitted later) :
    Sound later := by
  refine ⟨within, fun other => ?_⟩
  rw [jobs]
  by_cases mine : other = job
  · rw [mine, Function.update_self]
    exact fits
  · rw [Function.update_of_ne mine]
    exact (sound.jobs other).mono nodes more

/-! ### One step and a run -/

/-- A write that finds what its request has counted leaves the nodes within what they have. -/
theorem writing_within {event : Event} {server : Server} (sound : Sound state)
    (counted : AsCounted state event) (writes : writing state event = some server)
    (granted : List NodeId) (more : ∀ node ∈ state.overcommitted, node ∈ granted)
    (asked : ∀ job size node used, event = .insert job →
      state.jobs job = .admitted size node true used → node ∈ granted) :
    Within { state.put server with overcommitted := granted } := by
  have jobs := sound.jobs
  cases event with
  | insert job =>
    specialize jobs job
    simp only [writing] at writes
    split at writes
    · rename_i size node overcommit used admitted
      simp only [AsCounted, admitted] at counted
      rw [admitted] at jobs
      cases writes
      obtain ⟨storage, memory⟩ := jobs
      refine sound.within.put granted more ?_ fun outside => ?_
      · have disk := counted.1
        show size.diskGb + (state.othersOn state.nextServer node).diskGb ≤
          (state.nodes node).diskTotal
        omega
      · have ram := counted.2 fun member => outside (more node member)
        have room := memory (by
          cases overcommit with
          | false => rfl
          | true => exact absurd (asked job size node used rfl admitted) outside)
        show size.memoryGb + (state.othersOn state.nextServer node).memoryGb ≤
          (state.nodes node).ramTotal
        omega
    · cases writes
  | switch job =>
    specialize jobs job
    simp only [writing] at writes
    split at writes
    · rename_i read target used moving
      simp only [AsCounted, moving] at counted
      rw [moving] at jobs
      obtain ⟨current, found, rfl⟩ := map_eq_some_iff.mp writes
      obtain ⟨⟨disk, ram⟩, -, smaller⟩ := counted current found
      obtain ⟨storage, memory⟩ := jobs
      obtain ⟨-, id⟩ := State.mem_of_row found
      refine sound.within.put granted more ?_ fun outside => ?_
      · show current.size.diskGb + (state.othersOn current.id target).diskGb ≤
          (state.nodes target).diskTotal
        have least := smaller.2
        rw [id]
        omega
      · have fewer := ram fun member => outside (more target member)
        have least := smaller.1
        show current.size.memoryGb + (state.othersOn current.id target).memoryGb ≤
          (state.nodes target).ramTotal
        rw [id]
        omega
    · cases writes
  | switchBack job =>
    specialize jobs job
    simp only [writing] at writes
    split at writes
    · rename_i read used switched
      simp only [AsCounted, switched] at counted
      rw [switched] at jobs
      obtain ⟨current, found, rfl⟩ := map_eq_some_iff.mp writes
      obtain ⟨⟨disk, ram⟩, smaller⟩ := counted current found
      obtain ⟨storage, memory⟩ := jobs
      obtain ⟨-, id⟩ := State.mem_of_row found
      refine sound.within.put granted more ?_ fun outside => ?_
      · show current.size.diskGb + (state.othersOn current.id read.node).diskGb ≤
          (state.nodes read.node).diskTotal
        have least := smaller.2
        rw [id]
        omega
      · have free : read.node ∉ state.overcommitted := fun member => outside (more _ member)
        have fewer := ram free
        have room := memory free
        have least := smaller.1
        show current.size.memoryGb + (state.othersOn current.id read.node).memoryGb ≤
          (state.nodes read.node).ramTotal
        rw [id]
        omega
    · cases writes
  | write job =>
    specialize jobs job
    simp only [writing] at writes
    split at writes
    · rename_i read memoryLimit cpuLimit used checked
      simp only [AsCounted, checked] at counted
      rw [checked] at jobs
      obtain ⟨current, found, rfl⟩ := map_eq_some_iff.mp writes
      obtain ⟨⟨disk, ram⟩, node, saved⟩ := counted current found
      obtain ⟨member, id⟩ := State.mem_of_row found
      have within := sound.within current.node
      have storage : current.size.diskGb + (state.othersOn current.id current.node).diskGb ≤
          (state.capacityOf current.node).diskGb := promised_member Size.diskGb member
      have memory : current.size.memoryGb + (state.othersOn current.id current.node).memoryGb ≤
          (state.capacityOf current.node).memoryGb := promised_member Size.memoryGb member
      refine sound.within.put granted more ?_ fun outside => ?_
      · exact storage.trans within.1
      · have free : current.node ∉ state.overcommitted := fun there => outside (more _ there)
        have room := memory.trans (within.2 free)
        have fewer := ram (node ▸ free)
        have limit : memoryLimit ≤
          max ((state.nodes read.node).ramTotal - used.memoryGb) read.size.memoryGb := jobs
        show memoryLimit + (state.othersOn current.id current.node).memoryGb ≤
          (state.nodes current.node).ramTotal
        rw [id, node] at room ⊢
        omega
    · cases writes
  | create job size node overcommit => cases writes
  | move job id target => cases writes
  | save job id memoryLimit cpuLimit memoryMaxGb cpuMax => cases writes
  | check job => cases writes
  | rollBack job => cases writes
  | leave job => cases writes
  | delete id => cases writes

/-- A step that changes no row keeps what holds when what its request then knows was admitted. -/
theorem Sound.goesOn (sound : Sound state) (job : Nat) {next : Job} (fits : next.Admitted state) :
    Sound (state.setJob job next) := by
  have same : next.Admitted (state.setJob job next) := fits.mono rfl fun _ there => there
  exact sound.of_rows sound.within rfl (fun _ there => there) job rfl same

/-- A step that writes a row it has counted for keeps what holds. -/
theorem Sound.writes {event : Event} {server : Server} (sound : Sound state)
    (counted : AsCounted state event) (writes : writing state event = some server) (job : Nat)
    {next : Job} (fits : next.Admitted state) (asked : ∀ job size node used, event = .insert job →
      state.jobs job = .admitted size node true used → node ∈ state.overcommitted) :
    Sound ((state.put server).setJob job next) := by
  have within := writing_within sound counted writes state.overcommitted (fun _ there => there)
    asked
  have same : next.Admitted ((state.put server).setJob job next) :=
    fits.mono rfl fun _ there => there
  exact sound.of_rows within rfl (fun _ there => there) job rfl same

theorem sound_step {next : State} {event : Event} (sound : Sound state)
    (counted : AsCounted state event) (taken : step state event = some next) : Sound next := by
  cases event with
  | create job size node overcommit =>
    simp only [step] at taken
    split at taken
    · cases taken
      exact sound.goesOn job trivial
    · cases taken
  | move job id target =>
    simp only [step] at taken
    split at taken
    · split at taken
      · cases taken
        exact sound.goesOn job trivial
      · cases taken
    · cases taken
  | save job id memoryLimit cpuLimit memoryMaxGb cpuMax =>
    simp only [step] at taken
    split at taken
    · cases taken
      exact sound.goesOn job trivial
    · cases taken
  | check job =>
    simp only [step] at taken
    split at taken
    · rename_i size node overcommit asking
      split at taken
      · rename_i room
        cases taken
        refine sound.goesOn job ⟨capacityRefusal_storage room, fun fixed => ?_⟩
        rw [fixed] at room
        exact capacityRefusal_memory room
      · cases taken
        exact sound.goesOn job trivial
    · rename_i server target leaving
      split at taken
      · rename_i room
        cases taken
        exact sound.goesOn job ⟨capacityRefusal_storage room, capacityRefusal_memory room⟩
      · cases taken
        exact sound.goesOn job trivial
    · rename_i server memoryLimit cpuLimit memoryMaxGb cpuMax saving
      split at taken
      · rename_i accepted
        cases taken
        exact sound.goesOn job (validateSettings_memory accepted)
      · cases taken
        exact sound.goesOn job trivial
    · cases taken
  | insert job =>
    simp only [step] at taken
    split at taken
    · rename_i size node overcommit used server admitted writes
      cases taken
      have more : ∀ other ∈ state.overcommitted,
          other ∈ (if overcommit then node :: state.overcommitted else state.overcommitted) := by
        intro other there
        cases overcommit with
        | false => exact there
        | true => exact mem_cons_of_mem _ there
      have within := writing_within sound counted writes _ more (by
        intro job' size' node' used' same admitted'
        cases same
        rw [admitted] at admitted'
        cases admitted'
        exact mem_cons_self)
      exact sound.of_rows within rfl more job rfl trivial
    · cases taken
  | rollBack job =>
    simp only [step] at taken
    split at taken
    · cases taken
      exact sound.of_rows (sound.within.remove _) rfl (fun _ there => there) job rfl trivial
    · cases taken
  | switch job =>
    simp only [step] at taken
    split at taken
    · rename_i server target used moving
      split at taken
      · rename_i moved current writes found
        cases taken
        refine sound.writes counted writes job ?_ fun _ _ _ _ same => by cases same
        have where_ := counted
        simp only [AsCounted, moving] at where_
        obtain ⟨-, node, -⟩ := where_ current found
        obtain ⟨member, id⟩ := State.mem_of_row found
        have storage : current.size.diskGb +
            (state.othersOn current.id current.node).diskGb ≤
            (state.capacityOf current.node).diskGb := promised_member Size.diskGb member
        have memory : current.size.memoryGb +
            (state.othersOn current.id current.node).memoryGb ≤
            (state.capacityOf current.node).memoryGb := promised_member Size.memoryGb member
        have within := sound.within current.node
        rw [id, node] at storage memory
        rw [node] at within
        refine ⟨?_, fun outside => ?_⟩
        · show (state.othersOn server.id server.node).diskGb + current.size.diskGb ≤
            (state.nodes server.node).diskTotal
          omega
        · have room := within.2 outside
          show (state.othersOn server.id server.node).memoryGb + current.size.memoryGb ≤
            (state.nodes server.node).ramTotal
          omega
      · cases taken
        exact sound.goesOn job trivial
    · cases taken
  | switchBack job =>
    simp only [step] at taken
    split at taken
    · split at taken
      · rename_i writes
        cases taken
        exact sound.writes counted writes job trivial fun _ _ _ _ same => by cases same
      · cases taken
        exact sound
    · cases taken
  | write job =>
    simp only [step] at taken
    split at taken
    · split at taken
      · rename_i writes
        cases taken
        exact sound.writes counted writes job trivial fun _ _ _ _ same => by cases same
      · cases taken
        exact sound.goesOn job trivial
    · cases taken
  | leave job =>
    cases taken
    exact sound.goesOn job trivial
  | delete id =>
    cases taken
    refine ⟨sound.within.remove id, fun job => ?_⟩
    exact (sound.jobs job).mono rfl fun _ there => there

/-- In a run of creates, moves and saves each of whose writes still finds what its request has
counted, every node stays within what it has. -/
theorem capacity_kept (state : State) (events : List Event) (sound : Sound state)
    (counted : Systems.Meets step AsCounted state events) :
    Systems.Along step Within state events :=
  (Systems.along_of_meets (fun _ _ _ sound counted taken => sound_step sound counted taken) sound
    counted).mono fun _ sound => sound.within

/-- A panel without servers, whose nodes have eight gigabytes of memory and a hundred of
storage. -/
def nothing : State := ⟨fun _ => ⟨8, 4, 100⟩, [], fun _ => .idle, 0, []⟩

theorem nothing_sound : Sound nothing :=
  ⟨fun _ => ⟨Nat.zero_le _, fun _ => Nat.zero_le _⟩, fun _ => trivial⟩

/-- Two servers that fit together, asked for at once and made one after the other. -/
def fittingCreates : List Event :=
  [.create 0 ⟨4, 100, 60⟩ "node" false, .create 1 ⟨3, 100, 40⟩ "node" false, .check 0, .insert 0,
    .check 1, .insert 1]

theorem capacity_kept_fittingCreates :
    Systems.Along step Within nothing fittingCreates ∧
      (Systems.run step nothing fittingCreates).map
        (fun state => (state.capacityOf "node").diskGb) = some 100 := by
  refine ⟨capacity_kept nothing fittingCreates nothing_sound ?_, by decide +kernel⟩
  refine Systems.meets_cons trivial rfl ?_
  refine Systems.meets_cons trivial rfl ?_
  refine Systems.meets_cons trivial rfl ?_
  refine Systems.meets_cons ⟨Nat.zero_le _, fun _ => Nat.zero_le _⟩ rfl ?_
  refine Systems.meets_cons trivial rfl ?_
  exact ⟨⟨by decide, fun _ => by decide⟩, fun next taken => trivial⟩

/-- Two such servers, both of which ask before either is written. -/
def twoCreates : List Event :=
  [.create 0 ⟨6, 100, 60⟩ "node" false, .create 1 ⟨6, 100, 60⟩ "node" false, .check 0, .check 1,
    .insert 0, .insert 1]

theorem two_creates_promise_the_room_twice :
    ¬ ∀ events, Systems.Along step Within nothing events := by
  intro always
  have ends : (Systems.run step nothing twoCreates).map
      (fun state => ((state.capacityOf "node").diskGb, (state.nodes "node").diskTotal)) =
      some (120, 100) := by
    rfl
  obtain ⟨last, run, sums⟩ := map_eq_some_iff.mp ends
  have within := (Systems.along_last (always twoCreates) run "node").1
  obtain ⟨promised, has⟩ := Prod.mk.inj sums
  rw [promised, has] at within
  omega

end Geeboard.Capacity
