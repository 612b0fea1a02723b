/-
This file is about which revision of a game is approved, and which games are offered.

Manifests are proposed, turned down, approved and retired, and the approved ones
loaded, by requests that take turns at every statement. An approval puts its revision
in the place of the one approved before in one transaction, so at most one revision
of a game is approved. A load offers what the revisions it has read validate into; it
waits between reading and offering, and what is approved may be another one by then.
-/

import Geeboard.Community.Manifests
import Geeboard.Systems.Steps

namespace Geeboard.Community

open Games List Option
open Text (Json)

/-! ### The requests -/

/-- A load that has been worked out: the table when it was read, the revisions read of it, and the
games to be offered or only served. -/
structure Load where
  table : List Revision
  read : List Revision
  active : List GameDefinition
  retired : List GameDefinition

/-- Where a request is: the statement under way, or what it has read. -/
inductive Job where
  | idle
  | counting (game : GameDefinition) (manifest : Json)
  | looking (game : GameDefinition) (manifest : Json) (tries : Nat)
  | numbering (game : GameDefinition) (manifest : Json) (tries : Nat)
  | creating (game : GameDefinition) (manifest : Json) (tries revision : Nat)
  | rejecting (id : Nat)
  | checking (row : Revision)
  | flipping (row : Revision)
  | retiring (id : Nat)
  | refreshing (force : Bool)
  | read (force : Bool) (table : List Revision) (rows : List (Revision × Option GameDefinition))
  | asking (load : Load) (withStale : List GameDefinition) (toKeep : List (Nat × GameDefinition))
  | keeping (load : Load) (toKeep : List (Nat × GameDefinition))

/-- What was handed to the registry to be offered, the table when it was read, and the table at that
moment. -/
structure Offer where
  definitions : List GameDefinition
  table : List Revision
  rows : List Revision

/-- The revisions with the definitions kept beside them, the policy, what the process keeps, the
requests, and what has been offered. -/
structure State where
  rows : List Revision
  definitions : Nat → Option GameDefinition
  registries : List String
  fresh : Nat
  cache : Cache
  signature : Option (List (Nat × String × ManifestState))
  offered : List GameDefinition
  retired : List GameDefinition
  jobs : Nat → Job
  offers : List Offer

def State.setJob (state : State) (job : Nat) (next : Job) : State :=
  { state with jobs := Function.update state.jobs job next }

/-- Requests begin, have a statement done, or end; the policy changes; another process keeps a
definition. -/
inductive Event where
  | submit (job : Nat) (manifest : Json)
  | reject (job id : Nat)
  | approve (job id : Nat) (hash : String)
  | retire (job : Nat) (gameId : String)
  | refresh (job : Nat) (force : Bool)
  | find (job : Nat) (order : List Nat)
  | load (job : Nat)
  | use (job : Nat) (used : List String)
  | write (job : Nat)
  | keepFails (job : Nat)
  | end_ (job : Nat)
  | setRegistries (registries : List String)
  | keepElsewhere (id : Nat) (game : GameDefinition)

def MAX_PENDING : Nat := 20

/-- The revision with this id. -/
def findRevision (rows : List Revision) (id : Nat) : Option Revision :=
  rows.find? fun row => row.id = id

/-- The revisions with this one decided, where it still stands as it did. -/
def decided (id : Nat) (from_ to_ : ManifestState) (row : Revision) : Revision :=
  if row.id = id ∧ row.state = from_ then { row with state := to_ } else row

/-- Another revision of the game that was approved gives way. -/
def superseded (of : Revision) (row : Revision) : Revision :=
  if row.gameId = of.gameId ∧ row.state = .approved ∧ row.id ≠ of.id then
    { row with state := .superseded }
  else row

/-- The revision is pending with this hash. -/
def Revision.isPending (of row : Revision) : Bool :=
  row.id = of.id && row.state = .pending && row.hash = of.hash

/-- The last revision of a game. -/
def lastRevision (rows : List Revision) (gameId : String) : Nat :=
  ((rows.filter fun row => row.gameId = gameId).map Revision.revision).foldl max 0

/-- What a load reads: the approved and the retired revisions, those of one game by their
numbers. -/
def readInOrder (rows : List Revision) (order : List Nat) : Option (List Revision) :=
  let ordered := order.filterMap (findRevision rows)
  if order.isPerm ((rows.filter fun row => row.state = .approved || row.state = .retired).map
        Revision.id) &&
      decide (ordered.Pairwise fun first second =>
        first.gameId = second.gameId → first.revision < second.revision) then
    some ordered
  else none

def signatureOf (rows : List Revision) : List (Nat × String × ManifestState) :=
  rows.map fun row => (row.id, row.hash, row.state)

section

variable (checks : Checks) (shipped : List String)

/-- A game that came from a manifest, and takes no shipped game's id. -/
def usable (game : GameDefinition) : Bool :=
  game.id.startsWith "community-" && !shipped.contains game.id

/-- A load is handed to the registry. -/
def handOver (state : State) (job : Nat) (load : Load) : State :=
  let active := load.active.filter (usable shipped)
  { (state.setJob job .idle) with
    offered := active
    retired := load.retired.filter fun game =>
      usable shipped game && !active.any fun other => other.id == game.id
    signature := some (signatureOf load.read)
    offers := ⟨active, load.table, state.rows⟩ :: state.offers }

/-- What there is to keep is kept before a load is handed over. -/
def keepOrHandOver (state : State) (job : Nat) (load : Load) (toKeep : List (Nat × GameDefinition)) :
    State :=
  if toKeep.isEmpty then handOver shipped state job load
  else state.setJob job (.keeping load toKeep)

/-- A load goes on with what it has read, unless nothing has changed. -/
def loadRead (state : State) (job : Nat) (force : Bool) (table : List Revision)
    (rows : List (Revision × Option GameDefinition)) : State :=
  let read := rows.map Prod.fst
  if !force && some (signatureOf read) = state.signature then state.setJob job .idle
  else
    let (cache, report) := loadAll checks state.cache rows
    let state := { state with cache := cache }
    let load := ⟨table, read, report.active, report.retired⟩
    if report.withStale.isEmpty then keepOrHandOver shipped state job load report.toKeep
    else state.setJob job (.asking load report.withStale report.toKeep)

/-- The statement a request has under way. -/
def write (state : State) (job : Nat) : Option State :=
  match state.jobs job with
  | .counting game manifest =>
    if MAX_PENDING ≤ state.rows.countP fun row => row.state = .pending then
      some (state.setJob job .idle)
    else some (state.setJob job (.looking game manifest 0))
  | .looking game manifest tries =>
    if state.rows.any fun row => row.gameId = game.id && row.hash = checks.hashed manifest &&
        (row.state = .pending || row.state = .approved) then
      some (state.setJob job .idle)
    else some (state.setJob job (.numbering game manifest tries))
  | .numbering game manifest tries =>
    some (state.setJob job (.creating game manifest tries (lastRevision state.rows game.id + 1)))
  | .creating game manifest tries revision =>
    if state.rows.any fun row => row.gameId = game.id && row.revision = revision then
      -- Somebody else's proposal has this number.
      if tries + 1 < 3 then some (state.setJob job (.looking game manifest (tries + 1)))
      else some (state.setJob job .idle)
    else
      some { (state.setJob job .idle) with
        rows := state.rows ++
          [⟨state.fresh, game.id, revision, manifest, checks.hashed manifest, .pending⟩]
        fresh := state.fresh + 1 }
  | .rejecting id =>
    some { (state.setJob job .idle) with rows := state.rows.map (decided id .pending .rejected) }
  | .checking row =>
    -- Checked again under the registries there are now.
    match checks.validateManifest ⟨some state.registries, true⟩ row.manifest with
    | some _ => some (state.setJob job (.flipping row))
    | none => some (state.setJob job .idle)
  | .flipping row =>
    if state.rows.any row.isPending then
      some { (state.setJob job (.refreshing true)) with
        rows := state.rows.map fun other =>
          superseded row (decided row.id .pending .approved other) }
    else some (state.setJob job .idle)
  | .retiring id =>
    if state.rows.any fun row => row.id = id && row.state = .approved then
      some { (state.setJob job (.refreshing true)) with
        rows := state.rows.map (decided id .approved .retired) }
    else some (state.setJob job .idle)
  | .keeping load ((id, game) :: rest) =>
    some (keepOrHandOver shipped
      { state with definitions := Function.update state.definitions id (some game) } job load rest)
  | _ => none

def step (state : State) : Event → Option State
  | .submit job manifest =>
    match state.jobs job with
    | .idle =>
      match checks.validateManifest ⟨some state.registries, true⟩ manifest with
      | some game => some (state.setJob job (.counting game manifest))
      | none => none
    | _ => none
  | .reject job id =>
    match state.jobs job, findRevision state.rows id with
    | .idle, some row =>
      if row.state = .pending then some (state.setJob job (.rejecting id)) else none
    | _, _ => none
  | .approve job id hash =>
    match state.jobs job, findRevision state.rows id with
    | .idle, some row =>
      if row.state = .pending ∧ hash = row.hash ∧ checks.hashed row.manifest = row.hash then
        some (state.setJob job (.checking row))
      else none
    | _, _ => none
  | .retire job gameId =>
    match state.jobs job, state.rows.find? fun row => row.gameId = gameId && row.state = .approved with
    | .idle, some row => some (state.setJob job (.retiring row.id))
    | _, _ => none
  | .refresh job force =>
    match state.jobs job with
    | .idle => some (state.setJob job (.refreshing force))
    | _ => none
  | .find job order =>
    match state.jobs job, readInOrder state.rows order with
    | .refreshing force, some rows =>
      some (state.setJob job
        (.read force state.rows (rows.map fun row => (row, state.definitions row.id))))
    | _, _ => none
  | .load job =>
    match state.jobs job with
    | .read force table rows => some (loadRead checks shipped state job force table rows)
    | _ => none
  | .use job used =>
    match state.jobs job with
    | .asking load withStale toKeep =>
      -- Served for the servers there are, and not offered for a new one.
      let served := withStale.filter fun game => used.contains game.id
      some (keepOrHandOver shipped state job { load with retired := load.retired ++ served } toKeep)
    | _ => none
  | .write job => write checks shipped state job
  | .keepFails job =>
    match state.jobs job with
    | .keeping load _ => some (handOver shipped state job load)
    | _ => none
  | .end_ job =>
    match state.jobs job with
    | .idle => none
    | _ => some (state.setJob job .idle)
  | .setRegistries registries => some { state with registries := registries }
  | .keepElsewhere id game =>
    some { state with definitions := Function.update state.definitions id (some game) }

end

/-! ### What is to hold, and when it does -/

/-- At most one revision of a game is approved. -/
def OneApproved (rows : List Revision) : Prop :=
  ∀ row ∈ rows, ∀ other ∈ rows, row.state = .approved → other.state = .approved →
    row.gameId = other.gameId → row = other

/-- These are exactly what the approved revisions of a table validate into, where they hash to what
was recorded for them. -/
def AreValidations (checks : Checks) (definitions : List GameDefinition) (rows : List Revision) :
    Prop :=
  ∀ game, game ∈ definitions ↔
    ∃ row ∈ rows, row.state = .approved ∧ checks.validationOf row = some game

/-- Every load has offered what was approved when it read. -/
def OfferedAsRead (checks : Checks) (state : State) : Prop :=
  ∀ offer ∈ state.offers, AreValidations checks offer.definitions offer.table

/-- Every load has offered what was approved at that moment. -/
def OfferedAsApproved (checks : Checks) (state : State) : Prop :=
  ∀ offer ∈ state.offers, AreValidations checks offer.definitions offer.rows

/-- The approved revisions of the one table are those of the other. -/
def Current (table rows : List Revision) : Prop :=
  ∀ row : Revision, row.state = .approved → (row ∈ table ↔ row ∈ rows)

/-- A load that goes on finds the table it has read and the present one to be like this. -/
def Finds (like : List Revision → List Revision → Prop) (state : State) : Event → Prop
  | .load job =>
    match state.jobs job with
    | .read force table rows =>
      force = true ∨ some (signatureOf (rows.map Prod.fst)) ≠ state.signature →
        like table state.rows
    | _ => True
  | .use job _ | .write job | .keepFails job =>
    match state.jobs job with
    | .asking load _ _ | .keeping load _ => like load.table state.rows
    | _ => True
  | _ => True

/-! ### Revisions that differ only in where they stand -/

/-- One revision, whatever has been decided of it. -/
def Revision.Same (row other : Revision) : Prop :=
  row.id = other.id ∧ row.gameId = other.gameId ∧ row.manifest = other.manifest ∧
    row.hash = other.hash

/-- Every revision of the one table is in the other, whatever has been decided of it. -/
def Issued (rows later : List Revision) : Prop := ∀ row ∈ rows, ∃ other ∈ later, row.Same other

section

variable {checks : Checks} {rows later : List Revision} {row other : Revision}

theorem Revision.Same.refl (row : Revision) : row.Same row := ⟨rfl, rfl, rfl, rfl⟩

theorem Revision.Same.trans {third : Revision} (first : row.Same other) (second : other.Same third) :
    row.Same third :=
  ⟨first.1.trans second.1, first.2.1.trans second.2.1, first.2.2.1.trans second.2.2.1,
    first.2.2.2.trans second.2.2.2⟩

theorem Revision.Same.key (same : row.Same other) : row.key = other.key :=
  Prod.ext same.1 same.2.2.2

theorem Revision.Same.validationOf (same : row.Same other) :
    checks.validationOf row = checks.validationOf other := by
  obtain ⟨-, game, manifest, hash⟩ := same
  unfold Checks.validationOf
  rw [game, manifest, hash]

theorem Revision.Same.right {cache : Cache} (same : row.Same other)
    (right : cache.Right checks other) : cache.Right checks row := by
  intro game found
  rw [same.key] at found ⊢
  rw [same.validationOf]
  exact right game found

theorem Issued.refl (rows : List Revision) : Issued rows rows :=
  fun row member => ⟨row, member, .refl row⟩

theorem Issued.trans {third : List Revision} (first : Issued rows later)
    (second : Issued later third) : Issued rows third := by
  intro row member
  obtain ⟨other, inside, same⟩ := first row member
  obtain ⟨last, there, again⟩ := second other inside
  exact ⟨last, there, same.trans again⟩

theorem decided_same (id : Nat) (from_ to_ : ManifestState) (row : Revision) :
    row.Same (decided id from_ to_ row) := by
  unfold decided
  split
  · exact ⟨rfl, rfl, rfl, rfl⟩
  · exact .refl row

theorem superseded_same (of row : Revision) : row.Same (superseded of row) := by
  unfold superseded
  split
  · exact ⟨rfl, rfl, rfl, rfl⟩
  · exact .refl row

theorem issued_map {decide_ : Revision → Revision}
    (same : ∀ row : Revision, row.Same (decide_ row))
    (rows : List Revision) : Issued rows (rows.map decide_) :=
  fun row member => ⟨decide_ row, List.mem_map_of_mem member, same row⟩

theorem issued_append (rows added : List Revision) : Issued rows (rows ++ added) :=
  fun row member => ⟨row, mem_append_left _ member, .refl row⟩

/-- Revisions with ids of their own are one when their ids are. -/
theorem eq_of_id (ids : (rows.map Revision.id).Nodup) (member : row ∈ rows) (inside : other ∈ rows)
    (same : row.id = other.id) : row = other :=
  inj_on_of_nodup_map ids member inside same

theorem findRevision_mem {id : Nat} (found : findRevision rows id = some row) :
    row ∈ rows ∧ row.id = id := by
  unfold findRevision at found
  have hit := find?_some found
  exact ⟨mem_of_find?_eq_some found, of_decide_eq_true hit⟩

theorem findRevision_eq (ids : (rows.map Revision.id).Nodup) (member : row ∈ rows) :
    findRevision rows row.id = some row := by
  cases found : findRevision rows row.id with
  | none =>
    have missed := find?_eq_none.mp found row member
    exact absurd (decide_eq_true rfl) missed
  | some other =>
    obtain ⟨inside, same⟩ := findRevision_mem found
    rw [eq_of_id ids inside member same]

/-- What a load reads are the approved and the retired revisions. -/
theorem mem_readInOrder (ids : (rows.map Revision.id).Nodup) {order : List Nat}
    {ordered : List Revision} (read : readInOrder rows order = some ordered) :
    row ∈ ordered ↔ row ∈ rows ∧ (row.state = .approved ∨ row.state = .retired) := by
  unfold readInOrder at read
  dsimp only at read
  obtain ⟨both, is⟩ := ite_none_right_eq_some.mp read
  obtain rfl := some.inj is
  have perm := isPerm_iff.mp (Bool.and_eq_true_iff.mp both).1
  rw [mem_filterMap]
  constructor
  · rintro ⟨id, inside, found⟩
    obtain ⟨member, rfl⟩ := findRevision_mem found
    obtain ⟨other, kept, same⟩ := List.mem_map.mp (perm.mem_iff.mp inside)
    obtain ⟨there, stands⟩ := mem_filter.mp kept
    obtain rfl := eq_of_id ids there member same
    simp only [Bool.or_eq_true, decide_eq_true_eq] at stands
    exact ⟨member, stands⟩
  · rintro ⟨member, stands⟩
    refine ⟨row.id, perm.mem_iff.mpr (List.mem_map_of_mem (mem_filter.mpr ⟨member, ?_⟩)),
      findRevision_eq ids member⟩
    simp only [Bool.or_eq_true, decide_eq_true_eq]
    exact stands

end

/-! ### Every run -/

/-- What a request has read or worked out is of revisions that are there. -/
def Job.Fits (checks : Checks) (state : State) : Job → Prop
  | .checking row | .flipping row => ∃ other ∈ state.rows, row.Same other
  | .read _ table rows => Issued table state.rows ∧
      ∀ row, row ∈ rows.map Prod.fst ↔ row ∈ table ∧ (row.state = .approved ∨ row.state = .retired)
  | .asking load _ _ | .keeping load _ => AreValidations checks load.active load.table
  | _ => True

/-- The revisions have ids of their own, one of a game is approved, and what is kept, under way and
offered is what they validate into. -/
structure Kept (checks : Checks) (like : List Revision → List Revision → Prop) (state : State) :
    Prop where
  ids : (state.rows.map Revision.id).Nodup
  fresh : ∀ row ∈ state.rows, row.id < state.fresh
  once : OneApproved state.rows
  right : ∀ row ∈ state.rows, state.cache.Right checks row
  known : ∀ key game, state.cache.validated key = some game → key.1 < state.fresh
  jobs : ∀ job, (state.jobs job).Fits checks state
  offers : ∀ offer ∈ state.offers,
    AreValidations checks offer.definitions offer.table ∧ like offer.table offer.rows

section

variable {checks : Checks} {like : List Revision → List Revision → Prop} {shipped : List String}
  {state next : State} {job : Nat} {new : Job}

theorem Job.Fits.later {one : Job} (fits : one.Fits checks state)
    (issued : Issued state.rows next.rows) : one.Fits checks next := by
  cases one with
  | checking row | flipping row =>
    obtain ⟨other, inside, same⟩ := fits
    obtain ⟨last, there, again⟩ := issued other inside
    exact ⟨last, there, same.trans again⟩
  | read force table rows => exact ⟨fits.1.trans issued, fits.2⟩
  | asking | keeping => exact fits
  | _ => trivial

theorem Kept.moved (kept : Kept checks like state) (fits : new.Fits checks state)
    (issued : Issued state.rows next.rows) (jobs : next.jobs = (state.setJob job new).jobs)
    (one : Nat) : (next.jobs one).Fits checks next := by
  rw [jobs]
  unfold State.setJob
  dsimp only
  by_cases same : one = job
  · rw [same, Function.update_self]
    exact fits.later issued
  · rw [Function.update_of_ne same]
    exact (kept.jobs one).later issued

/-- A step that leaves the revisions, the cache and what was offered. -/
theorem Kept.still (kept : Kept checks like state) (fits : new.Fits checks state)
    (rows : next.rows = state.rows) (fresh : next.fresh = state.fresh)
    (cache : next.cache = state.cache) (offers : next.offers = state.offers)
    (jobs : next.jobs = (state.setJob job new).jobs) : Kept checks like next := by
  refine ⟨?_, ?_, ?_, ?_, ?_, kept.moved fits (by rw [rows]; exact .refl _) jobs, ?_⟩
  · rw [rows]
    exact kept.ids
  · rw [rows, fresh]
    exact kept.fresh
  · rw [rows]
    exact kept.once
  · rw [rows, cache]
    exact kept.right
  · rw [cache, fresh]
    exact kept.known
  · rw [offers]
    exact kept.offers

theorem Kept.setJob (kept : Kept checks like state) (fits : new.Fits checks state) :
    Kept checks like (state.setJob job new) := kept.still fits rfl rfl rfl rfl rfl

/-- A step that decides revisions, so that one of a game at most is approved. -/
theorem Kept.decide_ (kept : Kept checks like state) (fits : new.Fits checks state)
    {decide_ : Revision → Revision} (same : ∀ row : Revision, row.Same (decide_ row))
    (once : OneApproved (state.rows.map decide_)) :
    Kept checks like { (state.setJob job new) with rows := state.rows.map decide_ } := by
  have unchanged : (state.rows.map decide_).map Revision.id = state.rows.map Revision.id := by
    rw [List.map_map]
    exact map_congr_left fun row _ => (same row).1.symm
  have back : ∀ row ∈ state.rows.map decide_, ∃ other ∈ state.rows, row.Same other := by
    intro row member
    obtain ⟨other, inside, rfl⟩ := List.mem_map.mp member
    obtain ⟨id, game, manifest, hash⟩ := same other
    exact ⟨other, inside, id.symm, game.symm, manifest.symm, hash.symm⟩
  refine ⟨?_, fun row member => ?_, once, fun row member => ?_, kept.known,
    kept.moved fits (issued_map same state.rows) rfl, kept.offers⟩
  · dsimp only
    rw [unchanged]
    exact kept.ids
  · obtain ⟨other, inside, is⟩ := back row member
    rw [is.1]
    exact kept.fresh other inside
  · obtain ⟨other, inside, is⟩ := back row member
    exact is.right (kept.right other inside)

/-- No revision is approved by deciding one otherwise. -/
theorem OneApproved.decided {rows : List Revision} (once : OneApproved rows) (id : Nat)
    {from_ to_ : ManifestState} (other : to_ ≠ .approved) :
    OneApproved (rows.map (decided id from_ to_)) := by
  have kept : ∀ row, (Community.decided id from_ to_ row).state = .approved →
      Community.decided id from_ to_ row = row := by
    intro row approved
    unfold Community.decided at approved ⊢
    split
    · rename_i hit
      rw [if_pos hit] at approved
      exact absurd approved other
    · rfl
  intro first inFirst second inSecond approved also_ game
  obtain ⟨before, member, rfl⟩ := List.mem_map.mp inFirst
  obtain ⟨past, inside, rfl⟩ := List.mem_map.mp inSecond
  have one := kept before approved
  have two := kept past also_
  rw [one] at approved game ⊢
  rw [two] at also_ game ⊢
  exact once before member past inside approved also_ game

/-- The revision that is approved is the only one of its game, and those of other games stay. -/
theorem OneApproved.flipped {rows : List Revision} (once : OneApproved rows)
    (ids : (rows.map Revision.id).Nodup) {row : Revision}
    (there : ∃ other ∈ rows, row.Same other) :
    OneApproved (rows.map fun other => superseded row (Community.decided row.id .pending .approved
      other)) := by
  obtain ⟨own, ownIn, ownSame⟩ := there
  have cases_ : ∀ other ∈ rows,
      (superseded row (Community.decided row.id .pending .approved other)).state = .approved →
      (other.gameId = row.gameId → other.id = row.id) ∧
        (other.gameId ≠ row.gameId → other.state = .approved) := by
    intro other member approved
    have same := decided_same row.id .pending .approved other
    have stays : ¬ ((Community.decided row.id .pending .approved other).gameId = row.gameId ∧
        (Community.decided row.id .pending .approved other).state = .approved ∧
          (Community.decided row.id .pending .approved other).id ≠ row.id) := by
      intro gives
      unfold superseded at approved
      rw [if_pos gives] at approved
      cases approved
    have before : (Community.decided row.id .pending .approved other).state = .approved := by
      unfold superseded at approved
      rw [if_neg stays] at approved
      exact approved
    constructor
    · intro game
      by_contra different
      exact stays ⟨same.2.1.symm.trans game, before, fun is => different (same.1.trans is)⟩
    · intro game
      unfold Community.decided at before
      split at before
      · rename_i hit
        obtain rfl := eq_of_id ids member ownIn (hit.1.trans ownSame.1)
        exact absurd ownSame.2.1.symm game
      · exact before
  intro first inFirst second inSecond approved also_ game
  obtain ⟨before, member, rfl⟩ := List.mem_map.mp inFirst
  obtain ⟨past, inside, rfl⟩ := List.mem_map.mp inSecond
  have sameBefore := (decided_same row.id .pending .approved before).trans (superseded_same row _)
  have samePast := (decided_same row.id .pending .approved past).trans (superseded_same row _)
  have games : before.gameId = past.gameId :=
    sameBefore.2.1.trans (game.trans samePast.2.1.symm)
  obtain ⟨own_, other_⟩ := cases_ before member approved
  obtain ⟨ownPast, otherPast⟩ := cases_ past inside also_
  by_cases mine : before.gameId = row.gameId
  · have pastMine := ownPast (games.symm.trans mine)
    rw [eq_of_id ids member inside ((own_ mine).trans pastMine.symm)]
  · rw [once before member past inside (other_ mine) (otherPast fun is => mine (games.trans is))
      games]

/-! ### Loads -/

/-- What the validator accepts is a game the registry takes. -/
def Prefixed (checks : Checks) (shipped : List String) : Prop :=
  ∀ policy manifest game, checks.validateManifest policy manifest = some game →
    usable shipped game = true

theorem usable_of_validationOf (prefixed : Prefixed checks shipped) {row : Revision}
    {game : GameDefinition} (is : checks.validationOf row = some game) :
    usable shipped game = true := by
  unfold Checks.validationOf at is
  split at is
  · exact prefixed _ _ _ (filter_eq_some_iff.mp is).1
  · cases is

theorem AreValidations.usable (prefixed : Prefixed checks shipped)
    {definitions : List GameDefinition} {rows : List Revision}
    (are : AreValidations checks definitions rows) :
    AreValidations checks (definitions.filter (usable shipped)) rows := by
  intro game
  rw [mem_filter, are game]
  refine and_iff_left_of_imp ?_
  rintro ⟨row, -, -, is⟩
  exact usable_of_validationOf prefixed is

theorem Kept.handOver (kept : Kept checks like state) (prefixed : Prefixed checks shipped)
    {load : Load} (are : AreValidations checks load.active load.table)
    (finds : like load.table state.rows) :
    Kept checks like (handOver shipped state job load) := by
  have idle : Job.Fits checks state .idle := trivial
  refine ⟨kept.ids, kept.fresh, kept.once, kept.right, kept.known,
    kept.moved idle (.refl _) rfl, ?_⟩
  exact forall_mem_cons.mpr ⟨⟨are.usable prefixed, finds⟩, kept.offers⟩

theorem Kept.keepOrHandOver (kept : Kept checks like state) (prefixed : Prefixed checks shipped)
    {load : Load} (are : AreValidations checks load.active load.table)
    (finds : like load.table state.rows) (toKeep : List (Nat × GameDefinition)) :
    Kept checks like (keepOrHandOver shipped state job load toKeep) := by
  unfold Community.keepOrHandOver
  split
  · exact kept.handOver prefixed are finds
  · exact kept.setJob are

theorem Kept.loadRead (kept : Kept checks like state) (prefixed : Prefixed checks shipped) {force : Bool}
    {table : List Revision} {rows : List (Revision × Option GameDefinition)}
    (issued : Issued table state.rows)
    (read : ∀ row, row ∈ rows.map Prod.fst ↔
      row ∈ table ∧ (row.state = .approved ∨ row.state = .retired))
    (finds : force = true ∨ some (signatureOf (rows.map Prod.fst)) ≠ state.signature →
      like table state.rows) :
    Kept checks like (loadRead checks shipped state job force table rows) := by
  have there : ∀ row ∈ rows.map Prod.fst, ∃ other ∈ state.rows, row.Same other :=
    fun row member => issued row ((read row).mp member).1
  have agree : ∀ row ∈ rows.map Prod.fst, ∀ other ∈ state.rows, row.key = other.key →
      checks.validationOf other = checks.validationOf row := by
    intro row member other inside own
    obtain ⟨third, is, same⟩ := there row member
    obtain rfl := eq_of_id kept.ids is inside (same.1.symm.trans (Prod.mk.inj own).1)
    exact same.validationOf.symm
  have active : AreValidations checks (loadAll checks state.cache rows).2.active table := by
    intro game
    rw [loadAll_active, mem_offeredOf]
    · constructor
      · rintro ⟨row, member, approved, is⟩
        exact ⟨row, ((read row).mp member).1, approved, is⟩
      · rintro ⟨row, member, approved, is⟩
        exact ⟨row, (read row).mpr ⟨member, .inl approved⟩, approved, is⟩
    · intro row member
      obtain ⟨other, inside, same⟩ := there row member
      exact same.right (kept.right other inside)
    · intro row member other inside own
      obtain ⟨third, is, same⟩ := there other inside
      rw [same.validationOf]
      exact agree row member third is (own.trans same.key)
  have loaded : Kept checks like { state with cache := (loadAll checks state.cache rows).1 } := by
    refine ⟨kept.ids, kept.fresh, kept.once, fun other inside => ?_, fun key game found => ?_,
      kept.jobs, kept.offers⟩
    · exact loadAll_right (kept.right other inside) fun row member => agree row member other inside
    · rcases loadAll_known found with ⟨before, is⟩ | ⟨row, member, rfl⟩
      · exact kept.known key before is
      · obtain ⟨other, inside, same⟩ := there row member
        exact lt_of_eq_of_lt same.1 (kept.fresh other inside)
  unfold Community.loadRead
  dsimp only
  split
  · exact kept.setJob trivial
  · rename_i changed
    have goesOn : force = true ∨ some (signatureOf (rows.map Prod.fst)) ≠ state.signature := by
      by_contra neither
      obtain ⟨unforced, same⟩ := not_or.mp neither
      rw [Bool.eq_false_iff.mpr unforced, not_not.mp same] at changed
      exact changed (by simp)
    split
    · exact loaded.keepOrHandOver prefixed active (finds goesOn) _
    · exact loaded.setJob active

theorem kept_write (kept : Kept checks like state) (prefixed : Prefixed checks shipped)
    (finds : Finds like state (.write job)) (taken : write checks shipped state job = some next) : Kept checks like next := by
  have fits := kept.jobs job
  have ends : Job.Fits checks state .idle := trivial
  have loads : Job.Fits checks state (.refreshing true) := trivial
  unfold write at taken
  split at taken
  · split at taken
    · cases taken
      exact kept.setJob trivial
    · cases taken
      exact kept.setJob trivial
  · split at taken
    · cases taken
      exact kept.setJob trivial
    · cases taken
      exact kept.setJob trivial
  · cases taken
    exact kept.setJob trivial
  · rename_i game manifest tries revision under
    split at taken
    · split at taken
      · cases taken
        exact kept.setJob trivial
      · cases taken
        exact kept.setJob trivial
    · cases taken
      refine ⟨?_, ?_, ?_, ?_, fun key game found => ?_,
        kept.moved ends (issued_append _ _) rfl, kept.offers⟩
      · dsimp only
        rw [map_append, nodup_append]
        refine ⟨kept.ids, nodup_singleton _, ?_⟩
        rintro id member other single rfl
        obtain ⟨row, inside, rfl⟩ := List.mem_map.mp member
        exact absurd (mem_singleton.mp single) (Nat.ne_of_lt (kept.fresh row inside))
      · refine forall_mem_append.mpr ⟨fun row inside => ?_, ?_⟩
        · exact (kept.fresh row inside).trans (Nat.lt_succ_self _)
        · exact forall_mem_singleton.mpr (Nat.lt_succ_self _)
      · intro first inFirst second inSecond approved also_ same
        rcases mem_append.mp inFirst with before | now
        · rcases mem_append.mp inSecond with past | present
          · exact kept.once first before second past approved also_ same
          · rw [mem_singleton.mp present] at also_
            cases also_
        · rw [mem_singleton.mp now] at approved
          cases approved
      · refine forall_mem_append.mpr ⟨kept.right, forall_mem_singleton.mpr ?_⟩
        intro game found
        exact absurd (kept.known _ game found) (Nat.lt_irrefl _)
      · exact (kept.known key game found).trans (Nat.lt_succ_self _)
  · cases taken
    exact kept.decide_ ends (decided_same _ _ _) (kept.once.decided _ (by decide))
  · rename_i row under
    rw [under] at fits
    split at taken
    · cases taken
      exact kept.setJob fits
    · cases taken
      exact kept.setJob trivial
  · rename_i row under
    rw [under] at fits
    split at taken
    · cases taken
      exact kept.decide_ loads (fun other =>
        (decided_same _ _ _ other).trans (superseded_same row _)) (kept.once.flipped kept.ids fits)
    · cases taken
      exact kept.setJob trivial
  · split at taken
    · cases taken
      exact kept.decide_ loads (decided_same _ _ _)
        (kept.once.decided _ (by decide))
    · cases taken
      exact kept.setJob trivial
  · rename_i load id game rest under
    rw [under] at fits
    unfold Finds at finds
    simp only [under] at finds
    cases taken
    have wrote : Kept checks like
        { state with definitions := Function.update state.definitions id (some game) } :=
      ⟨kept.ids, kept.fresh, kept.once, kept.right, kept.known, kept.jobs, kept.offers⟩
    exact wrote.keepOrHandOver prefixed fits finds rest
  · cases taken

theorem kept_step {event : Event} (kept : Kept checks like state)
    (prefixed : Prefixed checks shipped) (finds : Finds like state event)
    (taken : step checks shipped state event = some next) : Kept checks like next := by
  cases event with
  | write job => exact kept_write kept prefixed finds taken
  | submit job manifest =>
    unfold step at taken
    dsimp only at taken
    split at taken
    · split at taken
      · cases taken
        exact kept.setJob trivial
      · cases taken
    · cases taken
  | reject job id =>
    unfold step at taken
    dsimp only at taken
    split at taken
    · split at taken
      · cases taken
        exact kept.setJob trivial
      · cases taken
    · cases taken
  | approve job id hash =>
    unfold step at taken
    dsimp only at taken
    split at taken
    · rename_i row idle found
      split at taken
      · cases taken
        exact kept.setJob ⟨row, (findRevision_mem found).1, .refl row⟩
      · cases taken
    · cases taken
  | retire job gameId | refresh job force =>
    unfold step at taken
    dsimp only at taken
    split at taken
    · cases taken
      exact kept.setJob trivial
    · cases taken
  | find job order =>
    unfold step at taken
    dsimp only at taken
    split at taken
    · rename_i force rows under found
      cases taken
      refine kept.setJob ⟨.refl _, fun row => ?_⟩
      rw [List.map_map]
      have same : (Prod.fst ∘ fun row : Revision => (row, state.definitions row.id)) = id := rfl
      rw [same, List.map_id]
      exact mem_readInOrder kept.ids found
    · cases taken
  | load job =>
    have fits := kept.jobs job
    unfold step at taken
    dsimp only at taken
    split at taken
    · rename_i force table rows under
      rw [under] at fits
      unfold Finds at finds
      simp only [under] at finds
      cases taken
      exact kept.loadRead prefixed fits.1 fits.2 finds
    · cases taken
  | use job used =>
    have fits := kept.jobs job
    unfold step at taken
    dsimp only at taken
    split at taken
    · rename_i load withStale toKeep under
      rw [under] at fits
      unfold Finds at finds
      simp only [under] at finds
      cases taken
      refine Kept.keepOrHandOver kept prefixed ?_ ?_ toKeep
      · exact fits
      · exact finds
    · cases taken
  | keepFails job =>
    have fits := kept.jobs job
    unfold step at taken
    dsimp only at taken
    split at taken
    · rename_i load toKeep under
      rw [under] at fits
      unfold Finds at finds
      simp only [under] at finds
      cases taken
      exact kept.handOver prefixed fits finds
    · cases taken
  | end_ job =>
    unfold step at taken
    dsimp only at taken
    split at taken
    · cases taken
    · cases taken
      exact kept.setJob trivial
  | setRegistries registries | keepElsewhere id game =>
    cases taken
    exact ⟨kept.ids, kept.fresh, kept.once, kept.right, kept.known, kept.jobs, kept.offers⟩

end

/-- Revisions with ids of their own, at most one of a game approved, and nothing loaded yet. -/
def beginning (rows : List Revision) (registries : List String) (fresh : Nat) : State :=
  ⟨rows, fun _ => none, registries, fresh, .empty, none, [], [], fun _ => .idle, []⟩

theorem beginning_kept (checks : Checks) (like : List Revision → List Revision → Prop)
    {rows : List Revision} {fresh : Nat} (registries : List String)
    (ids : (rows.map Revision.id).Nodup) (new : ∀ row ∈ rows, row.id < fresh)
    (once : OneApproved rows) : Kept checks like (beginning rows registries fresh) := by
  refine ⟨ids, new, once, ?_, ?_, fun _ => trivial, ?_⟩
  · rintro row member game ⟨⟩
  · rintro key game ⟨⟩
  · rintro offer ⟨⟩

theorem AreValidations.current {checks : Checks} {definitions : List GameDefinition}
    {table rows : List Revision} (are : AreValidations checks definitions table)
    (current : Current table rows) : AreValidations checks definitions rows := by
  intro game
  rw [are game]
  constructor
  · rintro ⟨row, member, approved, is⟩
    exact ⟨row, (current row approved).mp member, approved, is⟩
  · rintro ⟨row, member, approved, is⟩
    exact ⟨row, (current row approved).mpr member, approved, is⟩

/-- At most one revision of a game is approved, and every load offers exactly the validations of
the revisions that were approved when it read; and those of the approved ones, when no load goes on
after what is approved has changed. -/
theorem what_is_offered_was_approved (checks : Checks) (shipped : List String)
    (rows : List Revision) (registries : List String) (fresh : Nat) (events : List Event)
    (prefixed : Prefixed checks shipped) (ids : (rows.map Revision.id).Nodup)
    (new : ∀ row ∈ rows, row.id < fresh) (once : OneApproved rows) :
    Systems.Along (step checks shipped)
        (fun state => OneApproved state.rows ∧ OfferedAsRead checks state)
        (beginning rows registries fresh) events ∧
      (Systems.Meets (step checks shipped) (Finds Current) (beginning rows registries fresh) events →
        Systems.Along (step checks shipped) (OfferedAsApproved checks)
          (beginning rows registries fresh) events) := by
  constructor
  · have anyhow : ∀ (state : State) event, Finds (fun _ _ => True) state event := by
      intro state event
      cases event with
      | load job | use job used | write job | keepFails job =>
        unfold Finds
        dsimp only
        split <;> first | trivial | exact fun _ => trivial
      | _ => trivial
    exact (Systems.along_of_kept (fun state event _ kept taken =>
      kept_step kept prefixed (anyhow state event) taken)
      (beginning_kept checks _ registries ids new once) events).mono
      fun _ kept => ⟨kept.once, fun offer member => (kept.offers offer member).1⟩
  · intro finds
    exact (Systems.along_of_meets (fun _ _ _ kept finds taken =>
      kept_step kept prefixed finds taken)
      (beginning_kept checks Current registries ids new once) finds).mono
      fun _ kept offer member => (kept.offers offer member).1.current (kept.offers offer member).2

/-! ### A game that is retired while it is loaded -/

/-- A game and its manifest, as whatever a validator makes of it. -/
def aGame : GameDefinition where
  id := "community-game"
  name := "Game"
  config := []

/-- Checks that take every manifest for that game, and a text for its hash. -/
def anyManifest : Checks :=
  ⟨fun text => String.ofList (text.map Text.charOf), fun _ _ => some aGame⟩

def firstRevision : Revision := ⟨0, "community-game", 1, .null, "null", .pending⟩

theorem anyManifest_prefixed : Prefixed anyManifest [] := by
  intro policy manifest game is
  obtain rfl := some.inj is
  decide +kernel

theorem oneRevision_once : OneApproved [firstRevision] := by
  intro row member other inside approved
  rw [mem_singleton.mp member] at approved
  cases approved

theorem oneRevision_new : ∀ row ∈ [firstRevision], row.id < 1 :=
  forall_mem_singleton.mpr Nat.zero_lt_one

/-- The revision is approved and loaded. -/
def approval : List Event := [.approve 0 0 "null", .write 0, .write 0, .find 0 [0], .load 0, .write 0]

/-- The game is retired while the load after its approval keeps its definition. -/
def retiredMeanwhile : List Event := [.approve 0 0 "null", .write 0, .write 0, .find 0 [0], .load 0,
  .retire 1 "community-game", .write 1, .find 1 [0], .load 1, .write 0]

def begun : State := beginning [firstRevision] [] 1

theorem what_is_offered_was_approved_approval :
    Systems.Along (step anyManifest []) (OfferedAsApproved anyManifest) begun approval := by
  refine (what_is_offered_was_approved anyManifest [] [firstRevision] [] 1 approval
    anyManifest_prefixed (nodup_singleton _) oneRevision_new oneRevision_once).2 ?_
  refine Systems.meets_cons trivial rfl ?_
  refine Systems.meets_cons trivial rfl ?_
  refine Systems.meets_cons trivial rfl ?_
  refine Systems.meets_cons trivial rfl ?_
  refine Systems.meets_cons (fun _ _ _ => Iff.rfl) rfl ?_
  exact ⟨fun _ _ => Iff.rfl, fun next taken => trivial⟩

example : (Systems.run (step anyManifest []) begun approval).map State.offered = some [aGame] := by
  decide +kernel

theorem retired_game_is_offered :
    (Systems.run (step anyManifest []) begun retiredMeanwhile).map (fun last =>
      (last.offered, last.rows.map Revision.state, (last.offers.head?.map Offer.definitions),
        last.offers.head?.map fun offer => offer.rows.map Revision.state)) =
      some ([aGame], [.retired], some [aGame], some [.retired]) := by
  decide +kernel

/-- A load offers a game that is not approved any more. -/
theorem what_is_offered_was_retired :
    ¬ ∀ events, Systems.Along (step anyManifest []) (OfferedAsApproved anyManifest) begun events := by
  intro always
  obtain ⟨last, run, seen⟩ := map_eq_some_iff.mp retired_game_is_offered
  obtain ⟨-, seen⟩ := Prod.mk.inj seen
  obtain ⟨-, seen⟩ := Prod.mk.inj seen
  obtain ⟨definitions, states⟩ := Prod.mk.inj seen
  obtain ⟨offer, first, offered⟩ := map_eq_some_iff.mp definitions
  rw [first] at states
  have member : offer ∈ last.offers := mem_of_mem_head? first
  have are := Systems.along_last (always retiredMeanwhile) run offer member aGame
  rw [offered] at are
  obtain ⟨row, inside, approved, -⟩ := are.mp (mem_singleton.mpr rfl)
  have retired : offer.rows.map Revision.state = [.retired] := some.inj states
  have stands : row.state ∈ offer.rows.map Revision.state := List.mem_map_of_mem inside
  rw [retired, approved] at stands
  exact absurd stands (by decide)

end Geeboard.Community
