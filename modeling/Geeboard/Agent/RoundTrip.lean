/-
This file proves when the archive of a folder gives the folder back: exactly when no
path begins with a backslash, no file has more bytes than twelve octal digits count,
and no path is too long for an extended header.

Where a folder does not fit, something is lost whatever the disk does. No unpacking
leaves a file with more bytes than a header can say; a path that is too long is
refused; and what begins with a backslash is put at a shorter path, so that the
longest such path is missing.
-/

import Geeboard.Agent.Ground

namespace Geeboard.Tar

open Text Feeding List Option Function

/-! ### Folders that fit -/

/-- A disk with room is never about to fill. -/
theorem extractInto_room (ground : Ground) (checkEvery : Option Nat) (source : List Bytes) :
    extractInto ground.disk ground.directory checkEvery source none =
      unpack ground.disk ground.directory none source none := by
  obtain same | ⟨⟨trouble, stops, _⟩, _⟩ :=
    extractInto_looked ground.disk ground.directory checkEvery source none
  · exact same
  · have room : ¬100 * gib < min (floorFor (100 * gib) none) (512 * mib) := by decide
    have goesOn : look ground.disk
        (extractInto ground.disk ground.directory checkEvery source none).log = none := by
      show (if 100 * gib < min (floorFor (100 * gib) none) (512 * mib)
        then some (.aboutToFill (100 * gib)) else none) = none
      exact if_neg room
    exact absurd (stops.symm.trans goesOn) (some_ne_none trouble)

theorem mirrors_start (ground : Ground) : Mirrors ground [] [] := by
  refine ⟨?_, rfl⟩
  show Surface.mk ground.tree none = _
  congr 1
  refine filled_ext ground ?_ fun _ _ => rfl
  intro parts some'
  refine (ground.empty _ (prefix_append _ _) ?_).trans ?_
  · intro same
    exact some' (append_right_eq_self.mp same)
  · unfold shape
    rw [find?_nil]
    dsimp only
    rw [if_neg (fun below => by obtain ⟨_, member, _⟩ := below; exact nomatch member)]

/-- A folder that fits is given back by its archive. -/
theorem roundTrips_of_fits (ground : Ground) {folder : Folder} (fits : folder.Fits ground) :
    RoundTrips ground folder := by
  intro checkEvery source whole
  rw [extractInto_room, fits.1]
  obtain ⟨log, unpacked, mirrors⟩ := mirrors_entries ground fits folder.entries rfl
    (mirrors_start ground)
  have concludes := unpack_archive ground.disk ground.directory folder
    (fun entry member => (fits.2 entry member).2.1) source whole
  rw [unpacked] at concludes
  obtain ⟨files, same⟩ := concludes
  rw [same]
  refine ⟨⟨files, rfl⟩, ?_, fun other member => absurd member not_mem_nil⟩
  show (replay ground.tree log).tree = _
  rw [mirrors.1]
  exact filled_congr ground fun parts some' => shape_entries parts some'

/-! ### No file is larger than a header can say -/

/-- The files under a directory after a log have few enough bytes, the open one with so many
still to come. -/
structure Bounded (ground : Ground) (log : List Effect) (left : Nat) : Prop where
  files : ∀ parts bytes, ground.directory.parts <+: parts →
    (replay ground.tree log).tree parts = some (.file bytes) → bytes.length < 8 ^ 12
  sink : ∀ parts bytes, (replay ground.tree log).sink = some parts →
    (replay ground.tree log).tree parts = some (.file bytes) → bytes.length + left < 8 ^ 12

section
variable {ground : Ground} {log : List Effect} {left : Nat}

theorem bounded_start : Bounded ground [] 0 := by
  refine ⟨fun parts bytes under stands => ?_, fun parts bytes impossible => nomatch impossible⟩
  have stands' : ground.tree parts = some (.file bytes) := stands
  by_cases same : parts = ground.directory.parts
  · rw [same, ground.standing _ prefix_rfl] at stands'
    exact nomatch stands'
  · rw [ground.empty parts under same] at stands'
    exact nomatch stands'

theorem Bounded.less {fewer : Nat} (bounded : Bounded ground log left) (le : fewer ≤ left) :
    Bounded ground log fewer :=
  ⟨bounded.files, fun parts bytes open' stands =>
    lt_of_le_of_lt (Nat.add_le_add_left le _) (bounded.sink parts bytes open' stands)⟩

theorem bounded_mkdir (bounded : Bounded ground log left) (path : Place) :
    Bounded ground (log ++ [.mkdir path]) left := by
  have kept : ∀ parts bytes, (replay ground.tree (log ++ [.mkdir path])).tree parts =
      some (.file bytes) → (replay ground.tree log).tree parts = some (.file bytes) := by
    intro parts bytes stands
    rw [replay_append] at stands
    have stands' : (if parts <+: path.parts ∧ (replay ground.tree log).tree parts = none
      then some Node.directory else (replay ground.tree log).tree parts) =
        some (.file bytes) := stands
    split at stands'
    · exact nomatch stands'
    · exact stands'
  refine ⟨fun parts bytes under stands => bounded.files parts bytes under (kept _ _ stands),
    fun parts bytes open' stands => bounded.sink parts bytes ?_ (kept _ _ stands)⟩
  rw [replay_append] at open'
  exact open'

theorem bounded_closed (bounded : Bounded ground log left) (more : Nat) :
    Bounded ground (log ++ [.closed]) more := by
  refine ⟨fun parts bytes under stands => ?_, fun parts bytes open' => ?_⟩
  · rw [replay_append] at stands
    exact bounded.files parts bytes under stands
  · rw [replay_append] at open'
    exact nomatch open'

theorem bounded_opened (bounded : Bounded ground log left) (path : Place) {more : Nat}
    (small : more < 8 ^ 12) : Bounded ground (log ++ [.opened path]) more := by
  have shut : Bounded ground log left → (replay ground.tree (log ++ [.opened path])) =
      { replay ground.tree log with sink := none } → Bounded ground (log ++ [.opened path]) more := by
    intro bounded same
    refine ⟨fun parts bytes under stands => ?_, fun parts bytes open' => ?_⟩
    · rw [same] at stands
      exact bounded.files parts bytes under stands
    · rw [same] at open'
      exact nomatch open'
  have opened := replay_append ground.tree log (.opened path)
  unfold Surface.apply at opened
  dsimp only at opened
  split at opened
  · exact shut bounded opened
  · exact shut bounded opened
  · refine ⟨fun parts bytes under stands => ?_, fun parts bytes open' stands => ?_⟩
    · rw [opened] at stands
      have stands' : Function.update (replay ground.tree log).tree path.parts (some (.file [])) parts =
        some (.file bytes) := stands
      by_cases here : parts = path.parts
      · rw [here, update_self] at stands'
        cases stands'
        decide
      · rw [update_of_ne here] at stands'
        exact bounded.files parts bytes under stands'
    · rw [opened] at open' stands
      have here : path.parts = parts := some.inj open'
      have stands' : Function.update (replay ground.tree log).tree path.parts (some (.file [])) parts =
        some (.file bytes) := stands
      rw [here, update_self] at stands'
      cases stands'
      rw [length_nil, Nat.zero_add]
      exact small

theorem bounded_wrote (bounded : Bounded ground log (left + 1)) (byte : UInt8) :
    Bounded ground (log ++ [.wrote byte]) left := by
  have same : replay ground.tree (log ++ [.wrote byte]) = replay ground.tree log →
      Bounded ground (log ++ [.wrote byte]) left := by
    intro equal
    refine ⟨fun parts bytes under stands => ?_, fun parts bytes open' stands => ?_⟩
    · rw [equal] at stands
      exact bounded.files parts bytes under stands
    · rw [equal] at open' stands
      have bound := bounded.sink parts bytes open' stands
      omega
  have wrote := replay_append ground.tree log (.wrote byte)
  unfold Surface.apply at wrote
  dsimp only at wrote
  split at wrote
  · exact same wrote
  · next target open' =>
    split at wrote
    · next before stood =>
      have bound := bounded.sink target before open' stood
      refine ⟨fun parts bytes under stands => ?_, fun parts bytes open'' stands => ?_⟩
      · rw [wrote] at stands
        have stands' : Function.update (replay ground.tree log).tree target
          (some (.file (before ++ [byte]))) parts = some (.file bytes) := stands
        by_cases here : parts = target
        · rw [here, update_self] at stands'
          cases stands'
          rw [length_append, length_singleton]
          omega
        · rw [update_of_ne here] at stands'
          exact bounded.files parts bytes under stands'
      · rw [wrote] at open'' stands
        have here : target = parts := some.inj (open'.symm.trans open'')
        have stands' : Function.update (replay ground.tree log).tree target
          (some (.file (before ++ [byte]))) parts = some (.file bytes) := stands
        rw [here, update_self] at stands'
        cases stands'
        rw [length_append, length_singleton]
        omega
    · exact same wrote

end

section
variable (ground : Ground) (disk : Disk) (checkEvery : Option Nat)

/-- How many bytes of the open file are still to come. -/
def leftOf (state : Extraction) : Nat :=
  match state.current with
  | some ⟨.file, remaining, _⟩ => remaining.toNat
  | _ => 0

abbrev StateBounded (ground : Ground) (state : Extraction) : Prop :=
  Bounded ground state.log (leftOf state)

/-- What a step gives, or what was done when it stopped, leaves no file too large. -/
abbrev ResultBounded (ground : Ground) {Value : Type} (kept : Value → Prop) :
    Fallible Value → Prop :=
  Machine.Kept kept fun stopped => Bounded ground stopped.1 0

theorem writeBytes_bounded {log : List Effect} (bytes : Bytes) {left : Nat}
    (bounded : Bounded ground log (bytes.length + left)) :
    ResultBounded ground (fun after => Bounded ground after left) (writeBytes disk log bytes) := by
  induction bytes generalizing log with
  | nil =>
    rw [length_nil, Nat.zero_add] at bounded
    exact bounded
  | cons byte bytes inductionHypothesis =>
    unfold writeBytes
    split
    · exact bounded.less (Nat.zero_le _)
    · refine inductionHypothesis (bounded_wrote ?_ byte)
      rw [length_cons] at bounded
      exact bounded.less (by omega)

theorem makeDirectory_bounded {log : List Effect} {left : Nat} (path : Place)
    (bounded : Bounded ground log left) :
    ResultBounded ground (fun after => Bounded ground after left)
      (makeDirectory disk log path) := by
  unfold makeDirectory
  split
  · exact bounded.less (Nat.zero_le _)
  · exact bounded_mkdir bounded path

theorem closeSink_bounded {log : List Effect} {left : Nat} (bounded : Bounded ground log left) :
    ResultBounded ground (fun after => Bounded ground after 0) (closeSink disk log) := by
  unfold closeSink
  split
  · exact bounded.less (Nat.zero_le _)
  · exact bounded_closed bounded 0

theorem receive_bounded {state : Extraction} {payload : Payload}
    (current : state.current = some payload) (left : 0 < payload.remaining)
    (bounded : StateBounded ground state) :
    ResultBounded ground (StateBounded ground)
      (receive disk checkEvery state payload (state.pending.take payload.remaining.toNat)) := by
  have short : (state.pending.take payload.remaining.toNat).length ≤ payload.remaining.toNat := by
    rw [length_take]
    exact Nat.min_le_left _ _
  unfold receive
  dsimp only
  generalize state.pending.take payload.remaining.toNat = piece at short
  obtain ⟨kind, remaining, padding⟩ := payload
  cases kind with
  | file =>
    dsimp only at short left ⊢
    have before : Bounded ground state.log (piece.length + (remaining - piece.length).toNat) := by
      unfold StateBounded leftOf at bounded
      rw [current] at bounded
      dsimp only at bounded
      exact bounded.less (by omega)
    have wrote := writeBytes_bounded ground disk piece before
    unfold put
    cases written : writeBytes disk state.log piece with
    | error stopped =>
      rw [written] at wrote
      exact wrote
    | ok log =>
      rw [written] at wrote
      have after : Bounded ground log (remaining - piece.length).toNat := wrote
      dsimp only
      by_cases due : lookDue checkEvery (state.written + piece.length) state.checkedAt = true
      · rw [if_pos due]
        cases look disk log with
        | some trouble => exact after.less (Nat.zero_le _)
        | none => exact after
      · rw [if_neg due]
        exact after
  | metadata type chunks => exact bounded.less (Nat.zero_le _)

/-- A turn leaves no file too large. -/
abbrev TurnBounded (ground : Ground) : Fallible (Turn Extraction) → Prop :=
  Machine.KeptTurn (StateBounded ground) fun stopped => Bounded ground stopped.1 0

theorem finish_bounded {state : Extraction} (payload : Payload)
    (bounded : StateBounded ground state) : TurnBounded ground (finish disk state payload) := by
  have closed := closeSink_bounded ground disk bounded
  unfold finish
  split
  · exact bounded
  · dsimp only
    split
    · cases shut : closeSink disk state.log with
      | error stopped =>
        rw [shut] at closed
        exact closed
      | ok log =>
        rw [shut] at closed
        exact closed
    · cases nameFromMetadata _ _ with
      | error trouble => exact bounded.less (Nat.zero_le _)
      | ok name => exact bounded.less (Nat.zero_le _)

theorem beginEntry_bounded {state : Extraction} (header : Bytes) (directory : Place)
    (between : state.current = none) (bounded : StateBounded ground state) :
    TurnBounded ground (beginEntry disk directory state header) := by
  have none' : Bounded ground state.log 0 := bounded.less (Nat.zero_le _)
  have none'' : leftOf state = 0 := by
    unfold leftOf
    rw [between]
  have size : sizeIn header < 8 ^ 12 := sizeIn_lt header
  unfold beginEntry
  dsimp only
  split
  · split
    · exact none'
    · exact none'
  · cases safeJoin directory (entryName header state.longName) with
    | error trouble => exact none'
    | ok destination =>
      dsimp only
      split
      · have made := makeDirectory_bounded ground disk destination none'
        cases result : makeDirectory disk state.log destination with
        | error stopped =>
          rw [result] at made
          exact made
        | ok log =>
          rw [result] at made
          show Bounded ground log (leftOf state)
          rw [none'']
          exact made
      · have made := makeDirectory_bounded ground disk destination.parent none'
        cases result : makeDirectory disk state.log destination.parent with
        | error stopped =>
          rw [result] at made
          exact made
        | ok log =>
          rw [result] at made
          have opened : Bounded ground (log ++ [.opened destination]) (sizeIn header).toNat :=
            bounded_opened made destination (by omega)
          dsimp only
          split
          · have closed := closeSink_bounded ground disk opened
            cases shut : closeSink disk (log ++ [.opened destination]) with
            | error stopped =>
              rw [shut] at closed
              exact closed
            | ok after =>
              rw [shut] at closed
              show Bounded ground after (leftOf state)
              rw [none'']
              exact closed
          · exact opened

theorem turn_bounded (directory : Place) {state : Extraction}
    (bounded : StateBounded ground state) :
    TurnBounded ground (turn disk directory checkEvery state) := by
  cases current : state.current with
  | none =>
    rw [turn_between disk directory checkEvery state current, readHeader]
    split
    · exact bounded
    · dsimp only
      split
      · exact bounded
      · exact beginEntry_bounded ground disk (state.pending.take block) directory
          (show ({ state with pending := state.pending.drop block : Extraction }).current = none
            from current)
          (show StateBounded ground
            { state with pending := state.pending.drop block } from bounded)
  | some payload =>
    by_cases left : 0 < payload.remaining
    · by_cases empty : state.pending = []
      · rw [turn_starved disk directory checkEvery state current left empty]
        exact bounded
      · have taken := receive_bounded ground disk checkEvery current left bounded
        cases took : receive disk checkEvery state payload
            (state.pending.take payload.remaining.toNat) with
        | error stopped =>
          rw [turn_refused disk directory state current left empty took]
          rw [took] at taken
          exact taken
        | ok next =>
          obtain ⟨kind, _, turned⟩ := turn_received disk directory state current left empty took
          rw [took] at taken
          rw [turned]
          split
          · exact taken
          · exact finish_bounded ground disk _ taken
    · rw [turn_finishing disk directory checkEvery state current left]
      exact finish_bounded ground disk payload bounded

/-- No unpacking leaves a file with more bytes than a header can say. -/
theorem extractInto_bounded (source : List Bytes) (broken : Option String) :
    Bounded ground (extractInto disk ground.directory checkEvery source broken).log 0 := by
  have consumed := Machine.kept_consume (machine disk ground.directory checkEvery)
    (StateBounded ground) (fun stopped => Bounded ground stopped.1 0)
    (fun state bounded => turn_bounded ground disk checkEvery ground.directory bounded)
    (fun state piece bounded => bounded) .start source bounded_start
  unfold extractInto
  split
  · exact Bounded.less bounded_start (Nat.zero_le _)
  unfold unpack
  rw [conclude_log]
  cases result : (machine disk ground.directory checkEvery).consume .start source with
  | error stopped =>
    rw [result] at consumed
    exact consumed
  | ok state =>
    rw [result] at consumed
    exact Bounded.less consumed (Nat.zero_le _)

end

/-! ### Names that begin with a backslash -/

/-- A call that names a place. -/
def Effect.Names (effect : Effect) (path : Place) : Prop :=
  effect = .mkdir path ∨ effect = .opened path

theorem apply_changes (surface : Surface) (effect : Effect) :
    (∀ parts, (surface.apply effect).tree parts ≠ surface.tree parts →
      (∃ path, effect.Names path ∧ parts <+: path.parts) ∨ surface.sink = some parts) ∧
    ∀ parts, (surface.apply effect).sink = some parts →
      (∃ path, effect.Names path ∧ parts <+: path.parts) ∨ surface.sink = some parts := by
  cases effect with
  | mkdir path =>
    refine ⟨fun parts differs => ?_, fun parts open' => Or.inr open'⟩
    have differs' : (if parts <+: path.parts ∧ surface.tree parts = none then some Node.directory
      else surface.tree parts) ≠ surface.tree parts := differs
    split at differs'
    · next both => exact Or.inl ⟨path, Or.inl rfl, both.1⟩
    · exact absurd rfl differs'
  | opened path =>
    unfold Surface.apply
    dsimp only
    split
    · exact ⟨fun parts differs => absurd rfl differs, fun parts impossible => nomatch impossible⟩
    · exact ⟨fun parts differs => absurd rfl differs, fun parts impossible => nomatch impossible⟩
    · refine ⟨fun parts differs => ?_, fun parts open' => ?_⟩
      · by_cases here : parts = path.parts
        · exact Or.inl ⟨path, Or.inr rfl, by rw [here]⟩
        · exact absurd (update_of_ne here _ _) differs
      · exact Or.inl ⟨path, Or.inr rfl, by rw [some.inj open']⟩
  | wrote byte =>
    unfold Surface.apply
    dsimp only
    split
    · exact ⟨fun parts differs => absurd rfl differs, fun parts open' => Or.inr open'⟩
    · next target open' =>
      split
      · refine ⟨fun parts differs => Or.inr ?_, fun parts open'' => Or.inr open''⟩
        by_cases here : parts = target
        · rw [here, open']
        · exact absurd (update_of_ne here _ _) differs
      · exact ⟨fun parts differs => absurd rfl differs, fun parts open'' => Or.inr open''⟩
  | closed =>
    exact ⟨fun parts differs => absurd rfl differs, fun parts impossible => nomatch impossible⟩

/-- What stands after a log and did not before stands on the way to a place it names. -/
theorem replay_names (tree : Tree) (log : List Effect) :
    (∀ parts, (replay tree log).tree parts ≠ tree parts →
      ∃ effect ∈ log, ∃ path, effect.Names path ∧ parts <+: path.parts) ∧
    ∀ parts, (replay tree log).sink = some parts →
      ∃ effect ∈ log, ∃ path, effect.Names path ∧ parts <+: path.parts := by
  induction log using List.reverseRecOn with
  | nil => exact ⟨fun parts differs => absurd rfl differs, fun parts impossible => nomatch impossible⟩
  | append_singleton log effect inductionHypothesis =>
    obtain ⟨trees, sinks⟩ := inductionHypothesis
    obtain ⟨changes, opens⟩ := apply_changes (replay tree log) effect
    have before : ∀ parts, (∃ other ∈ log, ∃ path, other.Names path ∧ parts <+: path.parts) →
        ∃ other ∈ log ++ [effect], ∃ path, other.Names path ∧ parts <+: path.parts := by
      rintro parts ⟨other, member, named⟩
      exact ⟨other, mem_append_left _ member, named⟩
    have here : ∀ parts, ((∃ path, effect.Names path ∧ parts <+: path.parts) ∨
        (replay tree log).sink = some parts) →
        ∃ other ∈ log ++ [effect], ∃ path, other.Names path ∧ parts <+: path.parts := by
      rintro parts (named | open')
      · exact ⟨effect, mem_append_right _ (mem_singleton.mpr rfl), named⟩
      · exact before parts (sinks parts open')
    rw [replay_append]
    refine ⟨fun parts differs => ?_, fun parts open' => here parts (opens parts open')⟩
    by_cases earlier : (replay tree log).tree parts = tree parts
    · exact here parts (changes parts (by rw [earlier]; exact differs))
    · exact before parts (trees parts earlier)

/-- A log whose calls name places on the way to those that entries are put at. -/
def LogFrom (root : Place) (entries : List Stored) (log : List Effect) : Prop :=
  ∀ effect ∈ log, ∀ path, effect.Names path →
    ∃ entry ∈ entries, ∃ target, safeJoin root entry.name = .ok target ∧
      path.parts <+: target.parts

section
variable (disk : Disk) {root : Place} {entries : List Stored}

variable {log after : List Effect}

theorem logFrom_append {more : List Effect} (before : LogFrom root entries log)
    (after : LogFrom root entries more) : LogFrom root entries (log ++ more) := by
  intro effect member
  obtain early | late := mem_append.mp member
  · exact before effect early
  · exact after effect late

theorem logFrom_mute {more : List Effect}
    (mute : ∀ effect ∈ more, ∀ path, ¬effect.Names path) : LogFrom root entries more :=
  fun effect member path named => absurd named (mute effect member path)

theorem writeBytes_ok {bytes : Bytes} (written : writeBytes disk log bytes = .ok after) :
    after = log ++ bytes.map .wrote := by
  induction bytes generalizing log with
  | nil =>
    cases written
    rw [map_nil, append_nil]
  | cons byte bytes inductionHypothesis =>
    unfold writeBytes at written
    split at written
    · exact nomatch written
    · rw [inductionHypothesis written, map_cons, append_assoc]
      rfl

theorem makeDirectory_ok {path : Place} (made : makeDirectory disk log path = .ok after) :
    after = log ++ [.mkdir path] := by
  unfold makeDirectory at made
  split at made
  · exact nomatch made
  · cases made
    rfl

theorem closeSink_ok (closed : closeSink disk log = .ok after) :
    after = log ++ [.closed] := by
  unfold closeSink at closed
  split at closed
  · exact nomatch closed
  · cases closed
    rfl

/-- An entry that is unpacked is not too long, and its calls name where it is put. -/
theorem unpackEntry_ok {entry : Stored} (member : entry ∈ entries)
    (unpacked : unpackEntry disk root log entry = .ok after) (before : LogFrom root entries log) :
    ¬entry.TooLong ∧ LogFrom root entries after := by
  unfold unpackEntry at unpacked
  by_cases tooLong : entry.TooLong
  · rw [if_pos tooLong] at unpacked
    exact nomatch unpacked
  · rw [if_neg tooLong] at unpacked
    refine ⟨tooLong, ?_⟩
    cases joined : safeJoin root entry.name with
    | error trouble =>
      rw [joined] at unpacked
      exact nomatch unpacked
    | ok target =>
      rw [joined] at unpacked
      dsimp only at unpacked
      have there : ∀ path : Place, path.parts <+: target.parts →
          ∀ effect : Effect, effect.Names path → LogFrom root entries [effect] := by
        intro path leads effect named other one path' named'
        rw [mem_singleton.mp one] at named'
        have same : path' = path := by
          obtain rfl | rfl := named <;> obtain same | same := named' <;> cases same <;> rfl
        rw [same]
        exact ⟨entry, member, target, joined, leads⟩
      unfold unpackAt at unpacked
      split at unpacked
      · rw [makeDirectory_ok disk unpacked]
        exact logFrom_append before (there target prefix_rfl _ (Or.inl rfl))
      · next bytes _ =>
        cases made : makeDirectory disk log target.parent with
        | error stopped =>
          rw [made] at unpacked
          exact nomatch unpacked
        | ok first =>
          rw [made] at unpacked
          dsimp only at unpacked
          cases wrote : writeBytes disk (first ++ [.opened target]) bytes with
          | error stopped =>
            rw [wrote] at unpacked
            exact nomatch unpacked
          | ok second =>
            rw [wrote] at unpacked
            rw [closeSink_ok disk unpacked, writeBytes_ok disk wrote, makeDirectory_ok disk made]
            refine logFrom_append (logFrom_append (logFrom_append (logFrom_append before
              (there _ (List.dropLast_prefix _) _ (Or.inl rfl)))
              (there _ prefix_rfl _ (Or.inr rfl))) (logFrom_mute ?_)) (logFrom_mute ?_)
            · intro effect member' path named
              obtain ⟨byte, _, rfl⟩ := List.mem_map.mp member'
              obtain impossible | impossible := named <;> exact nomatch impossible
            · intro effect member' path named
              rw [mem_singleton.mp member'] at named
              obtain impossible | impossible := named <;> exact nomatch impossible

theorem unpackAll_ok (rest : List Stored) (members : ∀ entry ∈ rest, entry ∈ entries)
    (unpacked : unpackAll disk root log rest = .ok after) (before : LogFrom root entries log) :
    (∀ entry ∈ rest, ¬entry.TooLong) ∧ LogFrom root entries after := by
  induction rest generalizing log with
  | nil =>
    cases unpacked
    exact ⟨fun entry impossible => absurd impossible not_mem_nil, before⟩
  | cons entry rest inductionHypothesis =>
    unfold unpackAll at unpacked
    cases first : unpackEntry disk root log entry with
    | error stopped =>
      rw [first] at unpacked
      cases unpacked
    | ok next =>
      rw [first] at unpacked
      obtain ⟨short, from'⟩ := unpackEntry_ok disk (members entry mem_cons_self) first before
      obtain ⟨others, ends⟩ := inductionHypothesis
        (fun other member => members other (mem_cons_of_mem _ member)) unpacked from'
      refine ⟨fun other member => ?_, ends⟩
      obtain rfl | later := mem_cons.mp member
      · exact short
      · exact others other later

end

/-- A place that something was put at is not too long for a call. -/
theorem unpackAt_short (ground : Ground) {log after : List Effect} {target : Place}
    {content : Content} (unpacked : unpackAt ground.disk log target content = .ok after) :
    pathBytes target ≤ ground.longest := by
  by_contra long
  have refused : decide (ground.longest < pathBytes target) = true :=
    decide_eq_true (Nat.lt_of_not_le long)
  unfold unpackAt at unpacked
  split at unpacked
  · have makes : ground.disk.mkdir log target = some "ENAMETOOLONG" :=
      if_pos (Nat.lt_of_not_le long)
    unfold makeDirectory at unpacked
    rw [makes] at unpacked
    cases unpacked
  · next bytes =>
    cases made : makeDirectory ground.disk log target.parent with
    | error stopped =>
      rw [made] at unpacked
      cases unpacked
    | ok first =>
      rw [made] at unpacked
      dsimp only at unpacked
      cases wrote : writeBytes ground.disk (first ++ [.opened target]) bytes with
      | error stopped =>
        rw [wrote] at unpacked
        cases unpacked
      | ok second =>
        rw [wrote] at unpacked
        dsimp only at unpacked
        have named : Effect.opened target ∈ second := by
          rw [writeBytes_ok ground.disk wrote]
          exact mem_append_left _ (mem_append_right _ mem_cons_self)
        have tooLong : ground.tooLong second = true :=
          List.any_eq_true.mpr ⟨_, named, refused⟩
        have closes : ground.disk.close second = some "ENAMETOOLONG" := if_pos tooLong
        have unclosed : closeSink ground.disk second = .error (second, .system "ENAMETOOLONG") := by
          unfold closeSink
          rw [closes]
        rw [unclosed] at unpacked
        cases unpacked

/-- Where everything was unpacked, each entry was put at its place. -/
theorem unpackAll_each {disk : Disk} {root : Place} {log after : List Effect} {rest : List Stored}
    (unpacked : unpackAll disk root log rest = .ok after) {entry : Stored} (member : entry ∈ rest)
    {target : Place} (joined : safeJoin root entry.name = .ok target) :
    ∃ before next, unpackAt disk before target entry.content = .ok next := by
  induction rest generalizing log with
  | nil => exact absurd member not_mem_nil
  | cons first rest inductionHypothesis =>
    unfold unpackAll at unpacked
    cases put : unpackEntry disk root log first with
    | error stopped =>
      rw [put] at unpacked
      cases unpacked
    | ok next =>
      rw [put] at unpacked
      obtain rfl | later := mem_cons.mp member
      · unfold unpackEntry at put
        split at put
        · cases put
        · rw [joined] at put
          exact ⟨log, next, put⟩
      · exact inductionHypothesis unpacked later

theorem head_joined (part : List Char) (parts : List (List Char)) (some' : part ≠ []) :
    (joined (part :: parts)).head? = part.head? := by
  by_cases last : parts = []
  · rw [last]
    exact congrArg List.head? intercalate_singleton
  · rw [← singleton_append, joined_append [part] parts (cons_ne_nil _ _) last,
      show joined [part] = part from intercalate_singleton, head?_append_of_ne_nil _ some']

/-- The weight of an entry's path is its length, with a separator. -/
theorem weight_parts {entry : Stored} (named : entry.Named) :
    weight entry.parts = entry.relative.length + 1 := by
  have cut := segments_joined entry.parts (fun part member => (named.2 part member).1) named.1
  rw [← cut, weight_segments]
  rfl

/-- What stands at a path that begins with a backslash was put there for a heavier one. -/
theorem heavier {root : Place} {entry other : Stored} (named : entry.Named)
    (named' : other.Named) {target : Place} (joined : safeJoin root other.name = .ok target)
    (leads : root.parts ++ entry.parts <+: target.parts)
    (backslash : entry.relative.head? = some '\\') :
    other.relative.head? = some '\\' ∧ weight entry.parts < weight other.parts := by
  by_cases plain : other.relative.head? = some '\\'
  · refine ⟨plain, ?_⟩
    obtain ⟨rest, begins⟩ := head?_eq_some_iff.mp plain
    have there := safeJoin_ok joined
    rw [resolve_stripped_name] at there
    have short : (stripped other.relative).length ≤ rest.length := by
      have front : stripped other.relative = stripped rest := by
        rw [begins]
        exact dropWhile_cons_of_pos rfl
      rw [front]
      exact (dropWhile_suffix _).length_le
    have light := root.weight_resolve (stripped other.relative)
    obtain ⟨more, split⟩ := leads
    rw [← there, ← split, weight_append, weight_append] at light
    rw [weight_parts named', begins, length_cons]
    omega
  · rw [safeJoin_name named' root plain] at joined
    cases joined
    have above : entry.parts <+: other.parts := (prefix_append_right_inj _).mp leads
    obtain ⟨more, split⟩ := above
    cases parts : entry.parts with
    | nil => exact absurd parts named.1
    | cons part rest =>
      have some' : part ≠ [] := (named.2 part (by rw [parts]; exact mem_cons_self)).1.1
      have first : entry.relative.head? = part.head? := by
        unfold Stored.relative
        rw [parts, head_joined part rest some']
      have second : other.relative.head? = part.head? := by
        unfold Stored.relative
        rw [← split, parts, cons_append, head_joined part _ some']
      exact absurd (second.trans (first.symm.trans backslash)) plain

theorem bounded_weight (entries : List Stored) :
    ∃ bound, ∀ entry ∈ entries, weight entry.parts ≤ bound := by
  induction entries with
  | nil => exact ⟨0, fun entry impossible => nomatch impossible⟩
  | cons entry entries inductionHypothesis =>
    obtain ⟨bound, below⟩ := inductionHypothesis
    refine ⟨max (weight entry.parts) bound, fun other member => ?_⟩
    obtain rfl | later := mem_cons.mp member
    · exact Nat.le_max_left _ _
    · exact (below other later).trans (Nat.le_max_right _ _)

/-- Where every entry of a folder stands after its archive was unpacked, none begins with a
backslash: the heaviest that did would be missing. -/
theorem no_backslash {root : Place} {folder : Folder}
    (stands : ∀ entry ∈ folder.entries, ∃ other ∈ folder.entries, ∃ target,
      safeJoin root other.name = .ok target ∧ root.parts ++ entry.parts <+: target.parts) :
    ∀ entry ∈ folder.entries, entry.relative.head? ≠ some '\\' := by
  obtain ⟨bound, below⟩ := bounded_weight folder.entries
  have general : ∀ room, ∀ entry ∈ folder.entries, bound - weight entry.parts ≤ room →
      entry.relative.head? ≠ some '\\' := by
    intro room
    induction room with
    | zero =>
      intro entry member tight backslash
      obtain ⟨other, there, target, joined, leads⟩ := stands entry member
      obtain ⟨_, more⟩ := heavier (folder.named entry member) (folder.named other there) joined
        leads backslash
      have most := below other there
      omega
    | succ room inductionHypothesis =>
      intro entry member tight backslash
      obtain ⟨other, there, target, joined, leads⟩ := stands entry member
      obtain ⟨again, more⟩ := heavier (folder.named entry member) (folder.named other there)
        joined leads backslash
      have most := below other there
      exact inductionHypothesis other there (by omega) again
  intro entry member
  exact general _ entry member (Nat.le_refl _)

/-! ### Exactly the folders that fit -/

/-- A folder that its archive gives back fits. -/
theorem fits_of_roundTrips (ground : Ground) {folder : Folder}
    (roundTrips : RoundTrips ground folder) : folder.Fits ground := by
  obtain ⟨⟨files, success⟩, same, again⟩ := roundTrips none folder.archive rfl
  have spelled : folder.unspelled = [] := by
    refine eq_nil_iff_forall_not_mem.mpr fun other member => ?_
    obtain ⟨name, spells, _⟩ := again other member
    exact other.noText name spells
  refine ⟨spelled, ?_⟩
  have bounded := extractInto_bounded ground ground.disk none folder.archive none
  have stands : ∀ entry ∈ folder.entries,
      (replay ground.tree (extractInto ground.disk ground.directory none folder.archive
        none).log).tree (ground.directory.parts ++ entry.parts) = some entry.node := by
    intro entry member
    rw [same, filled_below ground _ (folder.named entry member).1, folder.find member]
  have sized : ∀ entry ∈ folder.entries, entry.bytes.length < 8 ^ 12 := by
    intro entry member
    have there := stands entry member
    unfold Stored.node at there
    unfold Stored.bytes
    split
    · decide
    · next content =>
      rw [content] at there
      exact bounded.files _ _ (prefix_append _ _) there
  have concludes := unpack_archive ground.disk ground.directory folder sized folder.archive rfl
  rw [← extractInto_room ground none] at concludes
  cases unpacked : unpackAll ground.disk ground.directory [] folder.entries with
  | error stopped =>
    rw [unpacked] at concludes
    have stopped' : extractInto ground.disk ground.directory none folder.archive none = _ :=
      concludes
    rw [stopped'] at success
    exact nomatch success
  | ok log =>
    rw [unpacked] at concludes
    obtain ⟨count, whole⟩ := concludes
    rw [whole] at stands
    obtain ⟨short, named⟩ := unpackAll_ok ground.disk folder.entries (fun _ member => member)
      unpacked (fun effect impossible => absurd impossible not_mem_nil)
    have put : ∀ entry ∈ folder.entries, ∃ other ∈ folder.entries, ∃ target,
        safeJoin ground.directory other.name = .ok target ∧
          ground.directory.parts ++ entry.parts <+: target.parts := by
      intro entry member
      have missing : ground.tree (ground.directory.parts ++ entry.parts) = none :=
        ground.empty _ (prefix_append _ _) fun equal =>
          (folder.named entry member).1 (append_right_eq_self.mp equal)
      obtain ⟨effect, called, path, names, leads⟩ :=
        (replay_names ground.tree log).1 (ground.directory.parts ++ entry.parts) (by
          rw [stands entry member, missing]
          exact some_ne_none _)
      obtain ⟨other, there, target, joined, leads'⟩ := named effect called path names
      exact ⟨other, there, target, joined, leads.trans leads'⟩
    intro entry member
    have plain := no_backslash put entry member
    refine ⟨plain, sized entry member, ?_, ?_⟩
    · by_contra long
      refine short entry member ⟨by omega, ?_⟩
      exact Nat.lt_of_not_le fun fits => long ((lengthIn_le_iff entry.name).mp fits)
    · obtain ⟨before, next, placed⟩ := unpackAll_each unpacked member
        (safeJoin_name (folder.named entry member) ground.directory plain)
      exact unpackAt_short ground placed

/-- The archive of a folder gives the folder back, into any empty directory and however its
bytes arrive, exactly if the folder fits. -/
theorem archive_roundTrips_iff (ground : Ground) (folder : Folder) :
    RoundTrips ground folder ↔ folder.Fits ground :=
  ⟨fits_of_roundTrips ground, roundTrips_of_fits ground⟩

namespace Sample

/-- An empty directory. -/
def ground : Ground where
  directory := directory
  tree := bareTree
  longest := 4095
  standing := bareTree_standing
  empty parts under below := by
    refine if_neg fun leads => below ?_
    exact leads.eq_of_length (le_antisymm leads.length_le under.length_le)

/-- A folder with one file, whose name begins with a backslash. -/
def backslashed : Folder where
  entries := [⟨["\\a".toList], .file 0o644 0 [1]⟩]
  unspelled := []
  named := by
    intro entry member
    rw [mem_singleton.mp member]
    exact ⟨cons_ne_nil _ _, by decide⟩
  distinct := nodup_singleton _
  closed := by
    intro entry member parts some' leads apart
    rw [mem_singleton.mp member] at leads apart
    have length : parts.length = 1 :=
      le_antisymm leads.length_le (length_pos_of_ne_nil some')
    exact absurd (leads.eq_of_length length) apart
  unfound := fun other member => absurd member not_mem_nil

end Sample

/-- A file whose name begins with a backslash comes back without it. -/
theorem archive_loses_backslash :
    ¬RoundTrips Sample.ground Sample.backslashed ∧
      (replay Sample.ground.tree (extractInto Sample.ground.disk Sample.ground.directory none
        Sample.backslashed.archive none).log).tree
          (Sample.ground.directory.parts ++ ["a".toList]) = some (.file [1]) := by
  refine ⟨fun roundTrips => ?_, by decide +kernel⟩
  exact ((fits_of_roundTrips Sample.ground roundTrips).2 _ mem_cons_self).1 rfl

end Geeboard.Tar
