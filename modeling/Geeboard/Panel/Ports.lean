/-
This file is about the ports of a node: how a block is found for a server, and
what becomes of the blocks while servers are created, moved and deleted at the
same time.

A game has a range of ports and lays its blocks on a fixed stride in it. The
search for a block looks at the first ports of the servers on the node, and the
database refuses a second server with the same first port there. Between the
search and the write of the row anything may happen. Two blocks of one game are
either the same or apart, so only another game's server can be in the way: one
that begins below the block and reaches into it, which the search never asks
about, or one that has come to begin inside the block since.
-/

import Geeboard.Panel.Rows
import Geeboard.Systems.Steps
import Mathlib.Logic.Function.Basic

namespace Geeboard.Ports

open List
open Panel (NodeId)

/-! ### Layouts and blocks -/

/-- The ports of a game: its range, and where its roles lie in a block. -/
structure PortLayout where
  portBase : Nat
  portSpan : Nat
  offsets : List Nat
  deriving DecidableEq, Repr

/-- How many ports in a row one server of the game has. -/
def strideOf (game : PortLayout) : Nat := game.offsets.foldl max 0 + 1

theorem strideOf_pos (game : PortLayout) : 0 < strideOf game := Nat.succ_pos _

/-- The highest port a block of the game can reach. -/
def lastPort (game : PortLayout) : Nat := game.portBase + game.portSpan + strideOf game - 2

def RESERVED_PORTS : List Nat := [22, 80, 443, 2019, 3000, 5432, 8080, 8711]

/-- What a manifest's ports are refused for. -/
def portProblems (game : PortLayout) : List String :=
  (if 1024 ≤ game.portBase ∧ game.portBase ≤ 65000 then [] else ["portBase"]) ++
  (if 1 ≤ game.portSpan ∧ game.portSpan ≤ 2000 then [] else ["portSpan"]) ++
  (if 1 ≤ game.offsets.length ∧ game.offsets.length ≤ 8 ∧ game.offsets.Nodup ∧
      ∀ offset ∈ game.offsets, offset ≤ 15 then [] else ["ports"]) ++
  (if lastPort game ≤ 65535 then [] else ["portSpan"]) ++
  (if ∀ port ∈ RESERVED_PORTS, ¬ (game.portBase ≤ port ∧ port ≤ lastPort game) then []
    else ["portBase"])

/-- The layouts of the games that are shipped. -/
def SHIPPED : List PortLayout :=
  [⟨27015, 200, [0]⟩, ⟨19132, 200, [0, 1]⟩, ⟨25565, 400, [0, 1, 2]⟩, ⟨16261, 200, [0, 1]⟩,
    ⟨7777, 200, [0, 1]⟩, ⟨2456, 120, [0, 1]⟩]

/-- A game a server can be made of: a shipped one, or one from a manifest that was accepted. -/
def Known (game : PortLayout) : Prop := game ∈ SHIPPED ∨ portProblems game = []

instance (game : PortLayout) : Decidable (Known game) := inferInstanceAs (Decidable (_ ∨ _))

theorem Known.lastPort_le {game : PortLayout} (known : Known game) : lastPort game ≤ 65535 := by
  rcases known with shipped | accepted
  · revert game
    decide
  · by_contra beyond
    unfold portProblems at accepted
    rw [if_neg beyond] at accepted
    simp at accepted

/-- The first port at or after `base`, stride by stride, whose block is clear. It takes no more
steps than the range has ports. -/
def walkStride (clear : Nat → Bool) (stride stop : Nat) : Nat → Nat → Option Nat
  | 0, _ => none
  | steps + 1, base =>
    if base < stop then
      if clear base then some base else walkStride clear stride stop steps (base + stride)
    else none

/-- A free block for a game, given the first ports that are taken on the node. -/
def freePortFor (game : PortLayout) (taken skip : List Nat) : Option Nat :=
  walkStride
    (fun base => !skip.contains base &&
      (List.range (strideOf game)).all fun offset => !taken.contains (base + offset))
    (strideOf game) (game.portBase + game.portSpan) game.portSpan game.portBase

/-- A first port the search can find: on the stride, inside the range. -/
def OnStride (game : PortLayout) (port : Nat) : Prop :=
  (∃ count, port = game.portBase + count * strideOf game) ∧ port < game.portBase + game.portSpan

/-- The walk stops at the first clear port it comes to, and comes to every one of the range. -/
theorem walkStride_first {clear : Nat → Bool} {stride stop steps base : Nat}
    (positive : 0 < stride) (enough : stop ≤ base + steps) :
    (walkStride clear stride stop steps base = none ∧
        ∀ count, base + count * stride < stop → clear (base + count * stride) = false) ∨
      ∃ count, walkStride clear stride stop steps base = some (base + count * stride) ∧
        base + count * stride < stop ∧ clear (base + count * stride) = true ∧
        ∀ fewer < count, clear (base + fewer * stride) = false := by
  induction steps generalizing base with
  | zero => exact Or.inl ⟨rfl, fun count inside => by omega⟩
  | succ steps inductionHypothesis =>
    have next (count : Nat) : base + stride + count * stride = base + (count + 1) * stride := by
      rw [Nat.succ_mul]
      omega
    unfold walkStride
    by_cases inside : base < stop
    · rw [if_pos inside]
      cases here : clear base with
      | true =>
        refine Or.inr ⟨0, ?_⟩
        rw [Nat.zero_mul, Nat.add_zero, if_pos rfl]
        exact ⟨rfl, inside, here, fun _ none => absurd none (Nat.not_lt_zero _)⟩
      | false =>
        rw [if_neg Bool.false_ne_true]
        have all {count : Nat} (later : ∀ fewer < count,
            clear (base + (fewer + 1) * stride) = false) :
            ∀ fewer < count + 1, clear (base + fewer * stride) = false := by
          intro fewer less
          cases fewer with
          | zero => rwa [Nat.zero_mul, Nat.add_zero]
          | succ fewer => exact later fewer (Nat.lt_of_succ_lt_succ less)
        rcases inductionHypothesis (show stop ≤ base + stride + steps by omega) with
          ⟨nothing, taken⟩ | ⟨count, found, within, clearThere, before⟩
        · refine Or.inl ⟨nothing, fun count within => ?_⟩
          cases count with
          | zero => rwa [Nat.zero_mul, Nat.add_zero]
          | succ count => exact next count ▸ taken count (next count ▸ within)
        · rw [next] at found within clearThere
          refine Or.inr ⟨count + 1, found, within, clearThere, all fun fewer less => ?_⟩
          exact next fewer ▸ before fewer less
    · rw [if_neg inside]
      exact Or.inl ⟨rfl, fun count within => by omega⟩

/-- A block nobody has, and that was not tried. -/
def Clear (game : PortLayout) (taken skip : List Nat) (base : Nat) : Prop :=
  base ∉ skip ∧ ∀ offset < strideOf game, base + offset ∉ taken

theorem freePortFor_walks (game : PortLayout) (taken skip : List Nat) :
    ∃ clear : Nat → Bool, (∀ base, clear base = true ↔ Clear game taken skip base) ∧
      freePortFor game taken skip = walkStride clear (strideOf game)
        (game.portBase + game.portSpan) game.portSpan game.portBase := by
  refine ⟨_, fun base => ?_, rfl⟩
  unfold Clear
  simp only [Bool.and_eq_true, Bool.not_eq_true', List.all_eq_true, mem_range,
    ← Bool.not_eq_true, contains_iff_mem]

theorem freePortFor_onStride {game : PortLayout} {taken skip : List Nat} {found : Nat}
    (free : freePortFor game taken skip = some found) : OnStride game found := by
  obtain ⟨clear, -, walks⟩ := freePortFor_walks game taken skip
  rcases @walkStride_first clear _ _ _ _ (strideOf_pos game) (Nat.le_refl _) with
    ⟨nothing, -⟩ | ⟨count, walked, within, -⟩
  · exact nomatch nothing.symm.trans (walks.symm.trans free)
  · cases walked.symm.trans (walks.symm.trans free)
    exact ⟨⟨count, rfl⟩, within⟩

/-- The search finds the lowest free block of the range, and gives up only where there is none. -/
theorem freePortFor_lowest (game : PortLayout) (taken skip : List Nat) :
    (∀ found, freePortFor game taken skip = some found ↔
      OnStride game found ∧ Clear game taken skip found ∧
        ∀ port, OnStride game port → Clear game taken skip port → found ≤ port) ∧
      (freePortFor game taken skip = none ↔
        ∀ port, OnStride game port → ¬Clear game taken skip port) := by
  obtain ⟨clear, isClear, walks⟩ := freePortFor_walks game taken skip
  have isTaken {base : Nat} (not_ : clear base = false) : ¬Clear game taken skip base :=
    fun free => Bool.false_ne_true (not_.symm.trans ((isClear base).mpr free))
  rw [walks]
  rcases @walkStride_first clear _ _ _ _ (strideOf_pos game)
      (Nat.le_refl (game.portBase + game.portSpan)) with
    ⟨nothing, none⟩ | ⟨count, found, within, isFree, before⟩
  · have all : ∀ port, OnStride game port → ¬Clear game taken skip port := by
      rintro port ⟨⟨count, rfl⟩, within⟩
      exact isTaken (none count within)
    refine ⟨fun found => ⟨fun isFound => ?_, fun lowest => ?_⟩, fun _ => all, fun _ => nothing⟩
    · exact nomatch nothing.symm.trans isFound
    · exact absurd lowest.2.1 (all found lowest.1)
  · have on : OnStride game (game.portBase + count * strideOf game) := ⟨⟨count, rfl⟩, within⟩
    have free := (isClear _).mp isFree
    have least : ∀ port, OnStride game port → Clear game taken skip port →
        game.portBase + count * strideOf game ≤ port := by
      rintro port ⟨⟨other, rfl⟩, -⟩ clearThere
      refine Nat.add_le_add_left (Nat.mul_le_mul_right _ (Nat.le_of_not_lt fun less => ?_)) _
      exact isTaken (before other less) clearThere
    refine ⟨fun port => ⟨fun isPort => ?_, fun lowest => ?_⟩, fun none => ?_, fun none => ?_⟩
    · obtain rfl := Option.some.inj (found.symm.trans isPort)
      exact ⟨on, free, least⟩
    · exact found.trans (congrArg some ((least port lowest.1 lowest.2.1).antisymm
        (lowest.2.2 _ on free)))
    · exact nomatch found.symm.trans none
    · exact absurd free (none _ on)

/-- Two blocks of one game are the same or apart. -/
theorem OnStride.apart {game : PortLayout} {first second : Nat} (one : OnStride game first)
    (other : OnStride game second) (different : first ≠ second) :
    first + strideOf game ≤ second ∨ second + strideOf game ≤ first := by
  obtain ⟨⟨before, rfl⟩, -⟩ := one
  obtain ⟨⟨after, rfl⟩, -⟩ := other
  rcases Nat.lt_trichotomy before after with less | same | more
  · left
    have steps : (before + 1) * strideOf game ≤ after * strideOf game :=
      Nat.mul_le_mul_right _ less
    rw [Nat.succ_mul] at steps
    omega
  · exact absurd (by rw [same]) different
  · right
    have steps : (after + 1) * strideOf game ≤ before * strideOf game :=
      Nat.mul_le_mul_right _ more
    rw [Nat.succ_mul] at steps
    omega

theorem OnStride.block_le {game : PortLayout} {port : Nat} (on : OnStride game port)
    (known : Known game) : port + strideOf game ≤ 65536 := by
  have last := known.lastPort_le
  have positive := strideOf_pos game
  unfold lastPort at last
  have inside := on.2
  omega

/-! ### The servers of the panel, and who is about to place one -/

/-- A server's row, as far as its ports go. -/
structure Placed where
  id : Nat
  node : NodeId
  port : Nat
  game : PortLayout
  deriving DecidableEq, Repr

/-- What a request that places a server knows so far. -/
inductive Job where
  | idle
  | searching (game : PortLayout) (node : NodeId) (tried : List Nat)
  | claiming (game : PortLayout) (node : NodeId) (tried : List Nat) (base : Nat)
  | installing (id : Nat)
  | leaving (server : Placed) (target : NodeId)
  | moving (server : Placed) (target : NodeId) (port : Nat)
  | switched (server : Placed)
  deriving DecidableEq, Repr

structure State where
  servers : List Placed
  jobs : Nat → Job
  nextServer : Nat

namespace State

/-- The row of a server. -/
def row (state : State) (id : Nat) : Option Placed :=
  state.servers.find? fun server => server.id == id

/-- The first ports of the servers on a node. -/
def portsOn (state : State) (node : NodeId) : List Nat :=
  (state.servers.filter fun server => server.node == node).map Placed.port

/-- The unique index on node and port, for the row of `id`. -/
def indexAdmits (state : State) (id : Nat) (node : NodeId) (port : Nat) : Bool :=
  state.servers.all fun other => other.id == id || other.node != node || other.port != port

/-- The row of a server with another place in it, when the database takes it. -/
def relocated (state : State) (id : Nat) (node : NodeId) (port : Nat) : Option Placed :=
  match state.row id with
  | some current =>
    if state.indexAdmits id node port then some { current with node := node, port := port }
    else none
  | none => none

def setJob (state : State) (job : Nat) (next : Job) : State :=
  { state with jobs := Function.update state.jobs job next }

/-- The row written, in the place of the one with its id. -/
def put (state : State) (server : Placed) : State :=
  { state with servers := server :: state.servers.filter fun other => other.id != server.id }

def remove (state : State) (id : Nat) : State :=
  { state with servers := state.servers.filter fun other => other.id != id }

end State

def MAX_PORT_ATTEMPTS : Nat := 5

/-- What happens next: to a create, to a move, or to a server that is deleted. A request can end
anywhere, refused, failed or killed. -/
inductive Event where
  | create (job : Nat) (game : PortLayout) (node : NodeId)
  | search (job : Nat)
  | insert (job : Nat)
  | rollBack (job : Nat)
  | move (job : Nat) (id : Nat) (target : NodeId)
  | switch (job : Nat)
  | switchBack (job : Nat)
  | leave (job : Nat)
  | delete (id : Nat)
  deriving DecidableEq, Repr

/-- The row an event writes with a place in it, when the database takes it. -/
def placing (state : State) : Event → Option Placed
  | .insert job =>
    match state.jobs job with
    | .claiming game node _ base =>
      if state.indexAdmits state.nextServer node base then
        some ⟨state.nextServer, node, base, game⟩
      else none
    | _ => none
  | .switch job =>
    match state.jobs job with
    | .moving server target port => state.relocated server.id target port
    | _ => none
  | .switchBack job =>
    match state.jobs job with
    | .switched server => state.relocated server.id server.node server.port
    | _ => none
  | _ => none

/-- One step of one request. -/
def step (state : State) (event : Event) : Option State :=
  match event with
  | .create job game node =>
    match state.jobs job with
    | .idle => if Known game then some (state.setJob job (.searching game node [])) else none
    | _ => none
  | .search job =>
    match state.jobs job with
    | .searching game node tried =>
      if tried.length < MAX_PORT_ATTEMPTS then
        match freePortFor game (state.portsOn node) tried with
        | some base => some (state.setJob job (.claiming game node tried base))
        | none => some (state.setJob job .idle)
      else some (state.setJob job .idle)
    | .leaving server target =>
      match freePortFor server.game (state.portsOn target) [] with
      | some port => some (state.setJob job (.moving server target port))
      | none => some (state.setJob job .idle)
    | _ => none
  | .insert job =>
    match state.jobs job with
    | .claiming game node tried base =>
      match placing state event with
      | some server =>
        some { (state.put server).setJob job (.installing server.id) with
          nextServer := state.nextServer + 1 }
      | none => some (state.setJob job (.searching game node (base :: tried)))
    | _ => none
  | .rollBack job =>
    match state.jobs job with
    | .installing id => some ((state.remove id).setJob job .idle)
    | _ => none
  | .move job id target =>
    match state.jobs job, state.row id with
    | .idle, some server =>
      if target ≠ server.node then some (state.setJob job (.leaving server target)) else none
    | _, _ => none
  | .switch job =>
    match state.jobs job with
    | .moving server _ _ =>
      match placing state event with
      | some moved => some ((state.put moved).setJob job (.switched server))
      | none => some (state.setJob job .idle)
    | _ => none
  | .switchBack job =>
    match state.jobs job with
    | .switched _ =>
      match placing state event with
      | some moved => some ((state.put moved).setJob job .idle)
      | none => some state
    | _ => none
  | .leave job => some (state.setJob job .idle)
  | .delete id => some (state.remove id)

/-! ### What is to hold, and when it does -/

/-- The block of a server. -/
def Placed.Covers (server : Placed) (port : Nat) : Prop :=
  server.port ≤ port ∧ port < server.port + strideOf server.game

/-- The blocks of two servers of one node have no port in common, and no block goes beyond the
last port there is. -/
def NoCollision (state : State) : Prop :=
  (∀ one ∈ state.servers, ∀ other ∈ state.servers, one.id ≠ other.id → one.node = other.node →
    ∀ port, ¬ (one.Covers port ∧ other.Covers port)) ∧
  ∀ server ∈ state.servers, ∀ port, server.Covers port → port ≤ 65535

/-- Where the event places a server, no server of another game reaches into the block from below,
and none has come to begin inside it. -/
def OutOfTheWay (state : State) (event : Event) : Prop :=
  ∀ placed, placing state event = some placed →
    ∀ other ∈ state.servers, other.id ≠ placed.id → other.node = placed.node →
      other.game ≠ placed.game →
      (other.port < placed.port → other.port + strideOf other.game ≤ placed.port) ∧
      ¬ (placed.port < other.port ∧ other.port < placed.port + strideOf placed.game)

instance (server : Placed) (port : Nat) : Decidable (server.Covers port) :=
  inferInstanceAs (Decidable (_ ∧ _))

instance (state : State) (event : Event) : Decidable (OutOfTheWay state event) :=
  inferInstanceAs (Decidable (∀ placed ∈ placing state event,
    ∀ other ∈ state.servers, other.id ≠ placed.id → other.node = placed.node →
      other.game ≠ placed.game →
      (other.port < placed.port → other.port + strideOf other.game ≤ placed.port) ∧
      ¬ (placed.port < other.port ∧ other.port < placed.port + strideOf placed.game)))

/-! ### What every state has -/

/-- A row as some request remembers it: its block is one of its game's, and the row that has its
id today is of the same game. -/
structure Remembered (state : State) (server : Placed) : Prop where
  early : server.id < state.nextServer
  onStride : OnStride server.game server.port
  game : ∀ other ∈ state.servers, other.id = server.id → other.game = server.game

/-- What a request knows was true when it found it out. -/
def Job.Sound (state : State) : Job → Prop
  | .idle => True
  | .searching game _ _ => Known game
  | .claiming game _ _ base => Known game ∧ OnStride game base
  | .installing _ => True
  | .leaving server _ => Remembered state server
  | .moving server _ port => Remembered state server ∧ OnStride server.game port
  | .switched server => Remembered state server

/-- Every server has a block of its game's, and so has every request that is to place one. -/
structure Sound (state : State) : Prop where
  known : ∀ server ∈ state.servers, Known server.game
  rows : ∀ server ∈ state.servers, Remembered state server
  jobs : ∀ job, (state.jobs job).Sound state

variable {state : State} {placed : Placed}

variable {event : Event} {server : Placed}

theorem State.mem_of_row {id : Nat} (found : state.row id = some server) :
    server ∈ state.servers ∧ server.id = id :=
  ⟨mem_of_find?_eq_some found, by simpa using find?_some found⟩

theorem State.mem_put :
    server ∈ (state.put placed).servers ↔
      server = placed ∨ (server ∈ state.servers ∧ server.id ≠ placed.id) := by
  simp only [State.put, mem_cons, mem_filter, bne_iff_ne]

theorem State.mem_remove {id : Nat} :
    server ∈ (state.remove id).servers ↔ server ∈ state.servers ∧ server.id ≠ id := by
  simp only [State.remove, mem_filter, bne_iff_ne]

/-- What a request remembers stays true when the rows stay, change place, or go. -/
theorem Remembered.mono {later : State} (remembered : Remembered state server)
    (order : state.nextServer ≤ later.nextServer)
    (rows : ∀ other ∈ later.servers, other.id < state.nextServer →
      ∃ earlier ∈ state.servers, earlier.id = other.id ∧ earlier.game = other.game) :
    Remembered later server where
  early := remembered.early.trans_le order
  onStride := remembered.onStride
  game := by
    intro other member same
    obtain ⟨earlier, before, id, game⟩ := rows other member (same ▸ remembered.early)
    exact game ▸ remembered.game earlier before (id.trans same)

theorem Job.Sound.mono {later : State} {job : Job} (sound : job.Sound state)
    (order : state.nextServer ≤ later.nextServer)
    (rows : ∀ other ∈ later.servers, other.id < state.nextServer →
      ∃ earlier ∈ state.servers, earlier.id = other.id ∧ earlier.game = other.game) :
    job.Sound later := by
  cases job with
  | idle => trivial
  | searching game node tried => exact sound
  | claiming game node tried base => exact sound
  | installing id => trivial
  | leaving server target => exact Remembered.mono sound order rows
  | moving server target port => exact ⟨sound.1.mono order rows, sound.2⟩
  | switched server => exact Remembered.mono sound order rows

/-- A request that goes on, with the rows as they are. -/
theorem Sound.setJob (sound : Sound state) (job : Nat) {next : Job} (fits : next.Sound state) :
    Sound (state.setJob job next) where
  known := sound.known
  rows := fun server member => (sound.rows server member).mono le_rfl
    fun other there _ => ⟨other, there, rfl, rfl⟩
  jobs := by
    intro other
    have same : ∀ {held : Job}, held.Sound state → held.Sound (state.setJob job next) :=
      fun held => held.mono le_rfl fun row there _ => ⟨row, there, rfl, rfl⟩
    by_cases mine : other = job
    · rw [mine]
      simp only [State.setJob, Function.update_self]
      exact same fits
    · simp only [State.setJob, Function.update_of_ne mine]
      exact same (sound.jobs other)

theorem Sound.remove (sound : Sound state) (id : Nat) :
    Sound (state.remove id) where
  known := fun server member => sound.known server (State.mem_remove.mp member).1
  rows := fun server member => (sound.rows server (State.mem_remove.mp member).1).mono le_rfl
    fun other there _ => ⟨other, (State.mem_remove.mp there).1, rfl, rfl⟩
  jobs := fun job => (sound.jobs job).mono le_rfl
    fun other there _ => ⟨other, (State.mem_remove.mp there).1, rfl, rfl⟩

/-! ### A row that is written -/

/-- What a row that is written with a place in it is like: it has a block of its game's, its
first port there is nobody else's, and it is a new server or one of the servers there are. -/
structure Fitting (state : State) (placed : Placed) : Prop where
  known : Known placed.game
  onStride : OnStride placed.game placed.port
  admitted : state.indexAdmits placed.id placed.node placed.port = true
  origin : placed.id = state.nextServer ∨
    ∃ current ∈ state.servers, current.id = placed.id ∧ current.game = placed.game

theorem relocated_fitting {node : NodeId} {port : Nat} (sound : Sound state)
    (remembered : Remembered state server) (on : OnStride server.game port)
    (relocated : state.relocated server.id node port = some placed) : Fitting state placed := by
  unfold State.relocated at relocated
  split at relocated
  · rename_i current found
    split at relocated
    · rename_i admitted
      obtain ⟨member, id⟩ := State.mem_of_row found
      have game := remembered.game current member id
      cases relocated
      exact ⟨sound.known current member, game ▸ on, id ▸ admitted,
        Or.inr ⟨current, member, rfl, rfl⟩⟩
    · cases relocated
  · cases relocated

theorem placing_fitting (sound : Sound state) (places : placing state event = some placed) :
    Fitting state placed := by
  cases event with
  | insert job =>
    have held := sound.jobs job
    simp only [placing] at places
    split at places
    · rename_i game node tried base claiming
      rw [claiming] at held
      split at places
      · rename_i admitted
        cases places
        exact ⟨held.1, held.2, admitted, Or.inl rfl⟩
      · cases places
    · cases places
  | switch job =>
    have held := sound.jobs job
    simp only [placing] at places
    split at places
    · rename_i server target port moving
      rw [moving] at held
      exact relocated_fitting sound held.1 held.2 places
    · cases places
  | switchBack job =>
    have held := sound.jobs job
    simp only [placing] at places
    split at places
    · rename_i server switched
      rw [switched] at held
      have remembered : Remembered state server := held
      exact relocated_fitting sound remembered remembered.onStride places
    · cases places
  | create job game node => cases places
  | search job => cases places
  | rollBack job => cases places
  | move job id target => cases places
  | leave job => cases places
  | delete id => cases places

/-- The state with a fitting row in it, whatever the counter of the ids then says. -/
theorem Fitting.sound_put (fitting : Fitting state placed) (sound : Sound state) {next : Nat}
    (order : state.nextServer ≤ next) (early : placed.id < next) :
    Sound { state.put placed with nextServer := next } := by
  have rows : ∀ other ∈ (state.put placed).servers, other.id < state.nextServer →
      ∃ earlier ∈ state.servers, earlier.id = other.id ∧ earlier.game = other.game := by
    intro other member old
    rcases State.mem_put.mp member with rfl | ⟨there, -⟩
    · rcases fitting.origin with new | before
      · exact absurd new (Nat.ne_of_lt old)
      · exact before
    · exact ⟨other, there, rfl, rfl⟩
  constructor
  · intro server member
    rcases State.mem_put.mp member with rfl | ⟨there, -⟩
    · exact fitting.known
    · exact sound.known server there
  · intro server member
    rcases State.mem_put.mp member with rfl | ⟨there, -⟩
    · refine ⟨early, fitting.onStride, fun other otherMember id => ?_⟩
      rcases State.mem_put.mp otherMember with rfl | ⟨-, different⟩
      · rfl
      · exact absurd id different
    · exact (sound.rows server there).mono order rows
  · exact fun job => (sound.jobs job).mono order rows

theorem covers_apart (one other : Placed) :
    (∀ port, ¬ (one.Covers port ∧ other.Covers port)) ↔
      one.port + strideOf one.game ≤ other.port ∨ other.port + strideOf other.game ≤ one.port := by
  have oneLong := strideOf_pos one.game
  have otherLong := strideOf_pos other.game
  unfold Placed.Covers
  constructor
  · intro apart
    by_contra overlap
    have shared := apart (max one.port other.port)
    omega
  · rintro apart port ⟨⟨_, _⟩, _, _⟩
    omega

/-- A fitting row collides with nobody just when no other game's server is in its way. -/
theorem Fitting.noCollision_put (fitting : Fitting state placed)
    (places : placing state event = some placed) (sound : Sound state) (apart : NoCollision state) :
    NoCollision (state.put placed) ↔ OutOfTheWay state event := by
  have long := strideOf_pos placed.game
  have different : ∀ other ∈ state.servers, other.id ≠ placed.id → other.node = placed.node →
      other.port ≠ placed.port := by
    intro other member id node port
    have admits := List.all_eq_true.mp fitting.admitted other member
    simp [id, node, port] at admits
  constructor
  · intro after _ same other member id node _
    rw [places] at same
    cases same
    have clear := (covers_apart placed other).mp (after.1 placed (State.mem_put.mpr (Or.inl rfl))
      other (State.mem_put.mpr (Or.inr ⟨member, id⟩)) (Ne.symm id) node.symm)
    have ports := different other member id node
    omega
  · intro out
    have clear : ∀ other ∈ state.servers, other.id ≠ placed.id → other.node = placed.node →
        placed.port + strideOf placed.game ≤ other.port ∨
          other.port + strideOf other.game ≤ placed.port := by
      intro other member id node
      have ports := different other member id node
      by_cases game : other.game = placed.game
      · have on := (sound.rows other member).onStride
        rw [game] at on ⊢
        exact fitting.onStride.apart on (Ne.symm ports)
      · obtain ⟨below, inside⟩ := out placed places other member id node game
        omega
    constructor
    · intro one oneMember other otherMember id node
      rcases State.mem_put.mp oneMember with rfl | ⟨oneThere, oneId⟩
      · rcases State.mem_put.mp otherMember with rfl | ⟨otherThere, otherId⟩
        · exact absurd rfl id
        · exact (covers_apart one other).mpr (clear other otherThere otherId node.symm)
      · rcases State.mem_put.mp otherMember with rfl | ⟨otherThere, otherId⟩
        · exact (covers_apart one other).mpr (clear one oneThere oneId node).symm
        · exact apart.1 one oneThere other otherThere id node
    · intro server member port covers
      rcases State.mem_put.mp member with rfl | ⟨there, -⟩
      · have top := fitting.onStride.block_le fitting.known
        have inside := covers.2
        omega
      · exact apart.2 server there port covers

/-! ### One step and a run -/

/-- What a step comes to. -/
inductive Leads (state : State) (event : Event) : State → Prop
  | stays (quiet : placing state event = none) : Leads state event state
  | goesOn (job : Nat) (held : Job) (fits : held.Sound state)
      (quiet : placing state event = none) : Leads state event (state.setJob job held)
  | deletes (id : Nat) (quiet : placing state event = none) :
      Leads state event (state.remove id)
  | rollsBack (id job : Nat) (quiet : placing state event = none) :
      Leads state event ((state.remove id).setJob job .idle)
  | places (placed : Placed) (job : Nat) (held : Job) (next : Nat)
      (places : placing state event = some placed) (order : state.nextServer ≤ next)
      (early : placed.id < next) (fits : held.Sound { state.put placed with nextServer := next }) :
      Leads state event { (state.put placed).setJob job held with nextServer := next }

theorem Fitting.remembered_put (fitting : Fitting state placed)
    (remembered : Remembered state server) :
    Remembered (state.put placed) server := by
  refine remembered.mono le_rfl fun other member old => ?_
  rcases State.mem_put.mp member with rfl | ⟨there, -⟩
  · rcases fitting.origin with new | before
    · exact absurd new (Nat.ne_of_lt old)
    · exact before
  · exact ⟨other, there, rfl, rfl⟩

theorem relocated_early {id : Nat} {node : NodeId} {port : Nat} (sound : Sound state)
    (relocated : state.relocated id node port = some placed) :
    placed.id < state.nextServer := by
  unfold State.relocated at relocated
  split at relocated
  · rename_i current found
    split at relocated
    · cases relocated
      exact (sound.rows current (State.mem_of_row found).1).early
    · cases relocated
  · cases relocated

theorem step_leads {next : State} (sound : Sound state) (taken : step state event = some next) :
    Leads state event next := by
  cases event with
  | create job game node =>
    simp only [step] at taken
    split at taken
    · split at taken
      · rename_i known
        cases taken
        exact .goesOn job _ known rfl
      · cases taken
    · cases taken
  | search job =>
    have held := sound.jobs job
    simp only [step] at taken
    split at taken
    · rename_i game node tried searching
      rw [searching] at held
      split at taken
      · split at taken
        · rename_i base free
          cases taken
          exact .goesOn job _ ⟨held, freePortFor_onStride free⟩ rfl
        · cases taken
          exact .goesOn job _ trivial rfl
      · cases taken
        exact .goesOn job _ trivial rfl
    · rename_i server target leaving
      rw [leaving] at held
      split at taken
      · rename_i port free
        cases taken
        exact .goesOn job _ ⟨held, freePortFor_onStride free⟩ rfl
      · cases taken
        exact .goesOn job _ trivial rfl
    · cases taken
  | insert job =>
    have held := sound.jobs job
    simp only [step] at taken
    split at taken
    · rename_i game node tried base claiming
      rw [claiming] at held
      split at taken
      · rename_i server places
        cases taken
        have id : server.id = state.nextServer := by
          simp only [placing, claiming] at places
          split at places
          · cases places
            rfl
          · cases places
        exact .places server job (.installing server.id) (state.nextServer + 1) places
          (Nat.le_succ _) (id ▸ Nat.lt_succ_self _) trivial
      · rename_i quiet
        cases taken
        exact .goesOn job _ held.1 quiet
    · cases taken
  | rollBack job =>
    simp only [step] at taken
    split at taken
    · cases taken
      exact .rollsBack _ job rfl
    · cases taken
  | move job id target =>
    simp only [step] at taken
    split at taken
    · rename_i server _ found
      split at taken
      · cases taken
        exact .goesOn job _ (sound.rows server (State.mem_of_row found).1) rfl
      · cases taken
    · cases taken
  | switch job =>
    have held := sound.jobs job
    simp only [step] at taken
    split at taken
    · rename_i server target port moving
      rw [moving] at held
      split at taken
      · rename_i moved places
        cases taken
        have fitting := placing_fitting sound places
        have early : moved.id < state.nextServer := by
          simp only [placing, moving] at places
          exact relocated_early sound places
        exact .places moved job (.switched server) state.nextServer places le_rfl early
          (fitting.remembered_put held.1)
      · rename_i quiet
        cases taken
        exact .goesOn job _ trivial quiet
    · cases taken
  | switchBack job =>
    simp only [step] at taken
    split at taken
    · rename_i server switched
      split at taken
      · rename_i moved places
        cases taken
        have early : moved.id < state.nextServer := by
          simp only [placing, switched] at places
          exact relocated_early sound places
        exact .places moved job .idle state.nextServer places le_rfl early trivial
      · rename_i quiet
        cases taken
        exact .stays quiet
    · cases taken
  | leave job =>
    cases taken
    exact .goesOn job .idle trivial rfl
  | delete id =>
    cases taken
    exact .deletes id rfl

theorem Leads.sound {next : State} (sound : Sound state) (leads : Leads state event next) :
    Sound next := by
  cases leads with
  | stays => exact sound
  | goesOn job held fits => exact sound.setJob job fits
  | deletes id => exact sound.remove id
  | rollsBack id job =>
    have idle : Job.idle.Sound (state.remove id) := trivial
    exact (sound.remove id).setJob job idle
  | places placed job held next places order early fits =>
    exact ((placing_fitting sound places).sound_put sound order early).setJob job fits

theorem NoCollision.fewer {later : State} (apart : NoCollision state)
    (fewer : ∀ server ∈ later.servers, server ∈ state.servers) : NoCollision later :=
  ⟨fun one oneMember other otherMember =>
      apart.1 one (fewer one oneMember) other (fewer other otherMember),
    fun server member => apart.2 server (fewer server member)⟩

theorem outOfTheWay_of_quiet (quiet : placing state event = none) :
    OutOfTheWay state event := by
  intro placed places
  rw [quiet] at places
  cases places

/-- A step leads on without a collision just when what it places is out of the way. -/
theorem Leads.noCollision {next : State} (sound : Sound state) (apart : NoCollision state)
    (leads : Leads state event next) :
    NoCollision next ↔ OutOfTheWay state event := by
  cases leads with
  | stays quiet => exact iff_of_true apart (outOfTheWay_of_quiet quiet)
  | goesOn job held fits quiet => exact iff_of_true apart (outOfTheWay_of_quiet quiet)
  | deletes id quiet =>
    exact iff_of_true (apart.fewer fun server member => (State.mem_remove.mp member).1)
      (outOfTheWay_of_quiet quiet)
  | rollsBack id job quiet =>
    exact iff_of_true (apart.fewer fun server member => (State.mem_remove.mp member).1)
      (outOfTheWay_of_quiet quiet)
  | places placed job held next places order early fits =>
    exact (placing_fitting sound places).noCollision_put places sound apart

theorem placing_eq_none (stuck : step state event = none) :
    placing state event = none := by
  cases event with
  | insert job =>
    simp only [step] at stuck
    split at stuck
    · split at stuck
      · cases stuck
      · assumption
    · simp only [placing]
  | switch job =>
    simp only [step] at stuck
    split at stuck
    · split at stuck
      · cases stuck
      · assumption
    · simp only [placing]
  | switchBack job =>
    simp only [step] at stuck
    split at stuck
    · split at stuck
      · cases stuck
      · assumption
    · simp only [placing]
  | create job game node => rfl
  | search job => rfl
  | rollBack job => rfl
  | move job id target => rfl
  | leave job => rfl
  | delete id => rfl

/-- Over any run of creates, moves and deletions, the blocks of one node stay apart just when
every row that is written with a place in it finds the other games' servers out of its way.
Servers of one game are never in each other's. -/
theorem ports_apart_iff (state : State) (events : List Event) (sound : Sound state)
    (apart : NoCollision state) :
    Systems.Along step NoCollision state events ↔
      Systems.Meets step OutOfTheWay state events :=
  Systems.along_iff_meets
    (fun _ _ _ sound _ _ taken => (step_leads sound taken).sound sound)
    (fun _ _ _ sound apart taken => (step_leads sound taken).noCollision sound apart)
    (fun _ _ stuck => outOfTheWay_of_quiet (placing_eq_none stuck))
    sound apart

/-- A panel without servers. -/
def nothing : State := ⟨[], fun _ => .idle, 0⟩

theorem nothing_sound : Sound nothing where
  known := fun _ member => absurd member not_mem_nil
  rows := fun _ member => absurd member not_mem_nil
  jobs := fun _ => trivial

theorem nothing_apart : NoCollision nothing :=
  ⟨fun _ member => absurd member not_mem_nil, fun _ member => absurd member not_mem_nil⟩

/-- A server of a game with three ports. -/
def firstServer : List Event :=
  [.create 0 ⟨25565, 400, [0, 1, 2]⟩ "node", .search 0, .insert 0]

/-- Two servers of that game, asked for at once, and one of another game, which moves away. -/
def threeServers : List Event :=
  [.create 0 ⟨25565, 400, [0, 1, 2]⟩ "node", .create 1 ⟨25565, 400, [0, 1, 2]⟩ "node", .search 0,
    .search 1, .insert 0, .insert 1, .search 1, .insert 1, .create 2 ⟨27015, 200, [0]⟩ "node",
    .search 2, .insert 2, .move 3 2 "other", .search 3, .switch 3]

theorem ports_apart_iff_threeServers :
    Systems.Along step NoCollision nothing threeServers ∧
      (Systems.run step nothing threeServers).map
        (fun state => state.servers.map fun server => (server.node, server.port)) =
        some [("other", 27015), ("node", 25568), ("node", 25565)] :=
  ⟨(ports_apart_iff nothing threeServers nothing_sound nothing_apart).mpr (by decide +kernel),
    by decide +kernel⟩

/-- The same server, and then one of a game from a manifest whose range begins in its block. -/
def secondServer : List Event :=
  firstServer ++ [.create 1 ⟨25566, 100, [0]⟩ "node", .search 1, .insert 1]

theorem second_server_in_the_first_block :
    ¬ ∀ events, Systems.Along step NoCollision nothing events := by
  intro always
  have ends : (Systems.run step nothing secondServer).map State.servers =
      some [⟨1, "node", 25566, ⟨25566, 100, [0]⟩⟩, ⟨0, "node", 25565, ⟨25565, 400, [0, 1, 2]⟩⟩] := by
    rfl
  obtain ⟨last, run, servers⟩ := Option.map_eq_some_iff.mp ends
  have apart := (Systems.along_last (always secondServer) run).1
  rw [servers] at apart
  refine apart ⟨1, "node", 25566, ⟨25566, 100, [0]⟩⟩ mem_cons_self
    ⟨0, "node", 25565, ⟨25565, 400, [0, 1, 2]⟩⟩ (mem_cons_of_mem _ mem_cons_self)
    (by decide) rfl 25566 ?_
  decide

end Geeboard.Ports
