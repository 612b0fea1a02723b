/-
This file is about what becomes of the rows of a batch.

Whatever order the rows come in, the messages are the same, one at most of each kind,
and every row that is told stands in the message of its kind, with the subject that is
about the same server, node or row. The rows are put with their subjects one after the
other, and what has been read so far stands where it belongs all along. Only the order
of the messages can fail: it is an order of texts, and the texts of moments are in the
order of the moments unless one of them is written with a sign.
-/

import Geeboard.Notify.Messages

namespace Geeboard.Notify.Rules

open List
open Catalogs (Collation)
open Scheduling.Moments (Moment)
open Systems
open Systems.IsoTimes
open Text (Record)

/-! ### Kinds and keys -/

theorem action_injective {first second : NotificationKind} (same : first.action = second.action) :
    first = second := by
  revert same
  cases first <;> cases second <;> decide

theorem kindOf_eq_some {action : String} {kind : NotificationKind} :
    kindOf action = some kind ↔ kind.action = action := by
  constructor
  · intro found
    unfold kindOf at found
    have met := find?_some found
    exact beq_iff_eq.mp met
  · rintro rfl
    cases kind <;> decide

/-- No action has a colon. -/
theorem action_plain (kind : NotificationKind) : ':' ∉ kind.action.toList := by
  cases kind <;> decide

/-- A key tells the kind and what the row is about. -/
theorem keyOf_inj {kind other : NotificationKind} {event row : AuditEvent}
    (same : keyOf kind event = keyOf other row) :
    kind = other ∧ aboutWhat kind event = aboutWhat other row := by
  have chars := congrArg String.toList same
  simp only [keyOf, String.toList_append, append_assoc] at chars
  have front (kind : NotificationKind) (rest : List Char) :
      (kind.action.toList ++ (":".toList ++ rest)).takeWhile (fun char => char != ':') =
        kind.action.toList := by
    have plain : ∀ char ∈ kind.action.toList, (char != ':') = true := by
      intro char member
      refine bne_iff_ne.mpr ?_
      rintro rfl
      exact action_plain kind member
    rw [takeWhile_append_of_pos plain]
    exact append_nil _
  have actions := congrArg (List.takeWhile fun char => char != ':') chars
  rw [front, front] at actions
  obtain rfl := action_injective (String.toList_injective actions)
  exact ⟨rfl, String.toList_injective (append_cancel_left (append_cancel_left chars))⟩

/-! ### Rows and their subjects -/

theorem told_kind {down : List String} {event : AuditEvent} {kind : NotificationKind}
    (tells : told down event = some kind) : kindOf event.action = some kind :=
  (Option.filter_eq_some_iff.mp tells).1

/-- The rows read so far are with their subjects, and nothing else is. -/
structure Placed (down : List String) (rows : List AuditEvent) (byKey : Record String Subject) :
    Prop where
  sound : ∀ key subject, byKey.get key = some subject → ∀ event ∈ subject.events,
    event ∈ rows ∧ told down event = some subject.kind ∧ keyOf subject.kind event = key
  complete : ∀ event ∈ rows, ∀ kind, told down event = some kind →
    ∃ subject, byKey.get (keyOf kind event) = some subject ∧
      subject.first.at_.time ≤ event.at_.time ∧ (merges kind = true → event ∈ subject.events)

theorem Placed.nothing (down : List String) : Placed down [] Record.empty :=
  ⟨fun _ _ found => by simp at found, fun _ member => absurd member not_mem_nil⟩

section Step

variable {down : List String} {rows : List AuditEvent} {byKey : Record String Subject}
  {event : AuditEvent}

/-- A row that is not told changes nothing. -/
theorem Placed.silent (placed : Placed down rows byKey) (silent : told down event = none) :
    Placed down (rows ++ [event]) byKey where
  sound key subject found row member := by
    obtain ⟨among, tells⟩ := placed.sound key subject found row member
    exact ⟨mem_append_left _ among, tells⟩
  complete row member kind tells := by
    rcases mem_append.mp member with among | last
    · exact placed.complete row among kind tells
    · rw [mem_singleton.mp last, silent] at tells
      exact absurd tells (Option.some_ne_none kind).symm

/-- A row of a new subject begins it. -/
theorem Placed.begins (placed : Placed down rows byKey) {kind : NotificationKind}
    (tells : told down event = some kind) (new : byKey.get (keyOf kind event) = none)
    (restarts : Record String AuditEvent) :
    Placed down (rows ++ [event])
      (byKey.set (keyOf kind event) (Subject.of restarts kind event)) where
  sound key subject found row member := by
    by_cases same : keyOf kind event = key
    · rw [← same, Record.get_set_self] at found
      obtain rfl := Option.some.inj found
      obtain rfl := mem_singleton.mp member
      exact ⟨mem_append_right _ (mem_singleton_self _), tells, same⟩
    · rw [Record.get_set_of_ne _ _ same] at found
      obtain ⟨among, known⟩ := placed.sound key subject found row member
      exact ⟨mem_append_left _ among, known⟩
  complete row member other says_ := by
    rcases mem_append.mp member with among | last
    · obtain ⟨subject, found, known⟩ := placed.complete row among other says_
      have different : keyOf kind event ≠ keyOf other row := by
        intro same
        rw [← same, new] at found
        exact absurd found (Option.some_ne_none subject).symm
      exact ⟨subject, by rw [Record.get_set_of_ne _ _ different, found], known⟩
    · obtain rfl := mem_singleton.mp last
      obtain rfl := Option.some.inj (tells.symm.trans says_)
      exact ⟨Subject.of restarts kind row, Record.get_set_self _ _ _, le_refl _,
        fun _ => mem_cons_self⟩

/-- A later row of a subject is merged into it or set aside. -/
theorem Placed.goesOn (placed : Placed down rows byKey) {kind : NotificationKind}
    (later : ∀ row ∈ rows, row.at_.time ≤ event.at_.time)
    (tells : told down event = some kind) {existing : Subject}
    (found : byKey.get (keyOf kind event) = some existing) :
    Placed down (rows ++ [event])
      (if merges kind then
        byKey.set (keyOf kind event) { existing with more := existing.more ++ [event] }
      else byKey) := by
  have opened := placed.sound _ _ found existing.first mem_cons_self
  have sameKind : existing.kind = kind := (keyOf_inj opened.2.2).1
  have before := later existing.first opened.1
  split
  · next merging =>
    refine ⟨?_, ?_⟩
    · intro key subject holds row member
      by_cases same : keyOf kind event = key
      · rw [← same, Record.get_set_self] at holds
        obtain rfl := Option.some.inj holds
        have split : row ∈ existing.events ++ [event] := member
        rcases mem_append.mp split with among | last
        · obtain ⟨read, known⟩ := placed.sound _ _ found row among
          exact ⟨mem_append_left _ read, same ▸ known⟩
        · obtain rfl := mem_singleton.mp last
          exact ⟨mem_append_right _ (mem_singleton_self _), sameKind ▸ tells,
            sameKind ▸ same⟩
      · rw [Record.get_set_of_ne _ _ same] at holds
        obtain ⟨read, known⟩ := placed.sound key subject holds row member
        exact ⟨mem_append_left _ read, known⟩
    · intro row member other says_
      rcases mem_append.mp member with among | last
      · obtain ⟨subject, holds, first, merged⟩ := placed.complete row among other says_
        by_cases same : keyOf kind event = keyOf other row
        · rw [← same, found] at holds
          obtain rfl := Option.some.inj holds
          exact ⟨{ existing with more := existing.more ++ [event] },
            by rw [← same, Record.get_set_self], first, fun merging =>
              mem_append_left [event] (merged merging)⟩
        · exact ⟨subject, by rw [Record.get_set_of_ne _ _ same, holds], first, merged⟩
      · obtain rfl := mem_singleton.mp last
        obtain rfl := Option.some.inj (tells.symm.trans says_)
        exact ⟨_, Record.get_set_self _ _ _, before, fun _ =>
          mem_append_right existing.events (mem_singleton_self row)⟩
  · next aside =>
    refine ⟨?_, ?_⟩
    · intro key subject holds row member
      obtain ⟨read, known⟩ := placed.sound key subject holds row member
      exact ⟨mem_append_left _ read, known⟩
    · intro row member other says_
      rcases mem_append.mp member with among | last
      · exact placed.complete row among other says_
      · obtain rfl := mem_singleton.mp last
        obtain rfl := Option.some.inj (tells.symm.trans says_)
        exact ⟨existing, found, before, fun merging => absurd merging aside⟩

/-- The next row is put with its subject. -/
theorem Placed.step (placed : Placed down rows byKey) (restarts : Record String AuditEvent)
    (later : ∀ row ∈ rows, row.at_.time ≤ event.at_.time) :
    Placed down (rows ++ [event])
      (((told down event).map fun kind => place restarts byKey kind event).getD byKey) := by
  cases tells : told down event with
  | none => exact placed.silent tells
  | some kind =>
    show Placed down (rows ++ [event]) (place restarts byKey kind event)
    unfold place
    cases found : byKey.get (keyOf kind event) with
    | none => exact placed.begins tells found restarts
    | some existing => exact placed.goesOn later tells found

end Step

/-- Rows in the order of time are with their subjects when all are read. -/
theorem placed_foldl (down : List String) (restarts : Record String AuditEvent)
    (rows : List AuditEvent) (inTime : rows.Pairwise fun first second =>
      first.at_.time ≤ second.at_.time) :
    Placed down rows (rows.foldl (fun byKey event =>
      ((told down event).map fun kind => place restarts byKey kind event).getD byKey)
      Record.empty) := by
  induction rows using List.reverseRecOn with
  | nil => exact Placed.nothing down
  | append_singleton rows event inductionHypothesis =>
    obtain ⟨early, -, later⟩ := pairwise_append.mp inTime
    rw [foldl_append]
    exact (inductionHypothesis early).step restarts fun row member =>
      later row member event (mem_singleton_self event)

theorem placed_subjectsOf {rows : List AuditEvent} (inTime : rows.Pairwise fun first second =>
    first.at_.time ≤ second.at_.time) : Placed (nodesDown rows) rows (subjectsOf rows) :=
  placed_foldl _ _ _ inTime

/-! ### Subjects of one kind -/

/-- Each kind has its subjects, in their order. -/
theorem get_foldl_addSubject (subjects : List Subject) (kind : NotificationKind) :
    (((subjects.foldl addSubject Record.empty).get kind).map Group.members).getD [] =
      subjects.filter fun subject => subject.kind == kind := by
  induction subjects using List.reverseRecOn with
  | nil => rfl
  | append_singleton subjects subject inductionHypothesis =>
    rw [foldl_append, filter_append, ← inductionHypothesis, foldl_cons,
      foldl_nil, addSubject]
    by_cases same : subject.kind = kind
    · rw [same, Record.get_set_self, filter_singleton, beq_iff_eq.mpr same, cond_true]
      cases (subjects.foldl addSubject Record.empty).get kind with
      | none => rfl
      | some group => rfl
    · rw [Record.get_set_of_ne _ _ same, filter_singleton,
        beq_eq_false_iff_ne.mpr same, cond_false, append_nil]

/-- The subjects of a group are all of its kind among those there are. -/
theorem members_of_mem {rows : List AuditEvent} {entry : NotificationKind × Group}
    (member : entry ∈ (groupsOf rows).entries) :
    entry.2.members =
      ((subjectsOf rows).entries.map Prod.snd).filter fun subject => subject.kind == entry.1 := by
  have found : (groupsOf rows).get entry.1 = some entry.2 := Record.get_of_mem member
  have members := get_foldl_addSubject ((subjectsOf rows).entries.map Prod.snd) entry.1
  unfold groupsOf at found
  rw [found] at members
  exact members

/-- A subject stands in a group. -/
theorem exists_group {rows : List AuditEvent} {key : String} {subject : Subject}
    (found : (subjectsOf rows).get key = some subject) :
    ∃ entry ∈ (groupsOf rows).entries, entry.1 = subject.kind ∧ subject ∈ entry.2.members := by
  have among : subject ∈ ((subjectsOf rows).entries.map Prod.snd).filter fun other =>
      other.kind == subject.kind :=
    mem_filter.mpr ⟨List.mem_map_of_mem (Record.mem_of_get found), beq_self_eq_true _⟩
  have members := get_foldl_addSubject ((subjectsOf rows).entries.map Prod.snd) subject.kind
  rw [← members] at among
  cases holds : (groupsOf rows).get subject.kind with
  | none =>
    unfold groupsOf at holds
    rw [holds] at among
    exact absurd among not_mem_nil
  | some group =>
    have entry := Record.mem_of_get holds
    unfold groupsOf at holds
    rw [holds] at among
    exact ⟨(subject.kind, group), entry, rfl, among⟩

theorem kind_of_member {rows : List AuditEvent} {entry : NotificationKind × Group}
    (member : entry ∈ (groupsOf rows).entries) {subject : Subject}
    (among : subject ∈ entry.2.members) :
    subject.kind = entry.1 ∧ ∃ key, (subjectsOf rows).get key = some subject := by
  rw [members_of_mem member] at among
  obtain ⟨listed, kind⟩ := mem_filter.mp among
  obtain ⟨⟨key, _⟩, placed, rfl⟩ := List.mem_map.mp listed
  exact ⟨beq_iff_eq.mp kind, key, Record.get_of_mem placed⟩

/-! ### Messages of a group -/

/-- No member of a group began before the group did, and one began with it. -/
theorem Group.began_spec (group : Group) :
    (∃ subject ∈ group.members, subject.first.at_.time = group.began) ∧
      ∀ subject ∈ group.members, group.began ≤ subject.first.at_.time := by
  obtain ⟨first, rest⟩ := group
  show (∃ subject ∈ first :: rest, _) ∧ ∀ subject ∈ first :: rest, _
  unfold Group.began
  induction rest using List.reverseRecOn with
  | nil =>
    refine ⟨⟨first, mem_cons_self, rfl⟩, ?_⟩
    intro subject member
    rw [mem_singleton.mp member]
    exact le_refl _
  | append_singleton rest last inductionHypothesis =>
    obtain ⟨⟨earliest, among, began⟩, least⟩ := inductionHypothesis
    dsimp only at began least ⊢
    rw [foldl_append, foldl_cons, foldl_nil, ← cons_append]
    refine ⟨?_, ?_⟩
    · rcases min_choice (rest.foldl (fun time subject => min time subject.first.at_.time)
        first.first.at_.time) last.first.at_.time with kept | taken
      · exact ⟨earliest, mem_append_left _ among, began.trans kept.symm⟩
      · exact ⟨last, mem_append_right _ (mem_singleton_self last), taken.symm⟩
    · intro subject member
      rcases mem_append.mp member with among | last
      · exact le_trans (min_le_left _ _) (least subject among)
      · rw [mem_singleton.mp last]
        exact min_le_right _ _

theorem kind_crashMessage (group : Group) (context : Context) :
    (crashMessage group context).kind = .serverCrashed ∧
      (crashMessage group context).at_ = isoText group.began := by
  unfold crashMessage
  dsimp only
  split
  · exact ⟨rfl, rfl⟩
  · exact ⟨rfl, rfl⟩

/-- A message is of its subject's kind and time. -/
theorem kind_single (cleanReason : String → String) (subject : Subject) (context : Context) :
    (single cleanReason subject context).kind = subject.kind ∧
      (single cleanReason subject context).at_ = isoText subject.first.at_.time := by
  unfold single
  dsimp only
  cases kind : subject.kind with
  | serverCrashed => exact kind_crashMessage ⟨subject, []⟩ context
  | _ => exact ⟨rfl, rfl⟩

theorem kind_grouped (kind : NotificationKind) (group : Group) (context : Context) :
    (grouped kind group context).kind = kind ∧
      (grouped kind group context).at_ = isoText group.began := by
  unfold grouped
  dsimp only
  cases kind with
  | serverCrashed => exact kind_crashMessage group context
  | _ => exact ⟨rfl, rfl⟩

/-- The message of a group is of its kind, and its time is when the group began. -/
theorem kind_messageOf (cleanReason : String → String) (context : Context)
    {entry : NotificationKind × Group} (own : entry.2.first.kind = entry.1) :
    (messageOf cleanReason context entry).kind = entry.1 ∧
      (messageOf cleanReason context entry).at_ = isoText entry.2.began := by
  unfold messageOf
  split
  · next alone =>
    obtain ⟨kind, at_⟩ := kind_single cleanReason entry.2.first context
    have began : entry.2.began = entry.2.first.first.at_.time := by
      rw [Group.began, List.isEmpty_iff.mp alone]
      rfl
    exact ⟨kind.trans own, began ▸ at_⟩
  · exact kind_grouped entry.1 entry.2 context

/-! ### What a batch tells -/

/-- When the first of the rows was written that are told as a kind. -/
def Earliest (batch : List AuditEvent) (kind : NotificationKind) (time : Int) : Prop :=
  (∃ event ∈ batch, told (nodesDown batch) event = some kind ∧ event.at_.time = time) ∧
    ∀ event ∈ batch, told (nodesDown batch) event = some kind → time ≤ event.at_.time

theorem Earliest.unique {batch : List AuditEvent} {kind : NotificationKind} {time other : Int}
    (earliest : Earliest batch kind time) (again : Earliest batch kind other) : time = other := by
  obtain ⟨⟨event, among, tells, began⟩, least⟩ := earliest
  obtain ⟨⟨row, amongAgain, tellsAgain, beganAgain⟩, leastAgain⟩ := again
  refine Int.le_antisymm ?_ ?_
  · exact beganAgain ▸ least row amongAgain tellsAgain
  · exact began ▸ leastAgain event among tells

/-- Which nodes went quiet is the same for any order of the rows. -/
theorem told_perm {batch other : List AuditEvent} (same : other.Perm batch) (event : AuditEvent) :
    told (nodesDown other) event = told (nodesDown batch) event := by
  have among (node : String) : node ∈ nodesDown other ↔ node ∈ nodesDown batch :=
    (same.filterMap _).mem_iff
  have contains : (nodesDown other).contains = (nodesDown batch).contains := by
    funext node
    rw [Bool.eq_iff_iff, contains_iff_mem, contains_iff_mem, among]
  unfold told folded
  rw [contains]

theorem Earliest.perm {batch other : List AuditEvent} (same : other.Perm batch)
    {kind : NotificationKind} {time : Int} :
    Earliest other kind time ↔ Earliest batch kind time := by
  unfold Earliest
  simp only [told_perm same, same.mem_iff]

section Groups

variable {rows : List AuditEvent}

/-- The subject of a row is in the group of its kind. -/
theorem exists_subject (inTime : rows.Pairwise fun first second =>
    first.at_.time ≤ second.at_.time) {event : AuditEvent} (member : event ∈ rows)
    {kind : NotificationKind} (tells : told (nodesDown rows) event = some kind) :
    ∃ entry ∈ (groupsOf rows).entries, entry.1 = kind ∧ ∃ subject ∈ entry.2.members,
      subject.kind = kind ∧ subject.first ∈ rows ∧
        aboutWhat kind subject.first = aboutWhat kind event ∧
          subject.first.at_.time ≤ event.at_.time ∧
            (merges kind = true → event ∈ subject.events) := by
  have placed := placed_subjectsOf inTime
  obtain ⟨subject, found, first, merged⟩ := placed.complete event member kind tells
  obtain ⟨read, _, key⟩ := placed.sound _ _ found subject.first mem_cons_self
  obtain ⟨sameKind, same⟩ := keyOf_inj key
  obtain ⟨entry, among, kindOfEntry, stands⟩ := exists_group found
  exact ⟨entry, among, kindOfEntry.trans sameKind, subject, stands, sameKind, read,
    sameKind ▸ same, first, merged⟩

/-- A group began with the first row that is told as its kind. -/
theorem earliest_of_group (inTime : rows.Pairwise fun first second =>
    first.at_.time ≤ second.at_.time) {entry : NotificationKind × Group}
    (member : entry ∈ (groupsOf rows).entries) : Earliest rows entry.1 entry.2.began := by
  have placed := placed_subjectsOf inTime
  obtain ⟨⟨earliest, among, began⟩, least⟩ := entry.2.began_spec
  refine ⟨?_, ?_⟩
  · obtain ⟨sameKind, key, found⟩ := kind_of_member member among
    obtain ⟨read, tells, _⟩ := placed.sound key _ found earliest.first mem_cons_self
    exact ⟨earliest.first, read, sameKind ▸ tells, began⟩
  · intro event read tells
    obtain ⟨other, otherMember, otherKind, subject, stands, _, _, _, first, _⟩ :=
      exists_subject inTime read tells
    have sameGroup : other.2.members = entry.2.members := by
      rw [members_of_mem otherMember, members_of_mem member, otherKind]
    exact le_trans (least subject (sameGroup ▸ stands)) first

/-- A kind that is told has a group, which began with its first row. -/
theorem group_of_earliest (inTime : rows.Pairwise fun first second =>
    first.at_.time ≤ second.at_.time) {kind : NotificationKind} {time : Int}
    (earliest : Earliest rows kind time) :
    ∃ entry ∈ (groupsOf rows).entries, entry.1 = kind ∧ entry.2.began = time := by
  obtain ⟨event, read, tells, -⟩ := earliest.1
  obtain ⟨entry, member, rfl, -⟩ := exists_subject inTime read tells
  exact ⟨entry, member, rfl, (earliest_of_group inTime member).unique earliest⟩

end Groups

/-! ### The batch in order -/

/-- The language's comparison of texts has the characters of moments in their places: it is the
one of texts for readers, which takes digits before letters and punctuation before digits. -/
def ReadsTimes (locale : Collation) : Prop :=
  ∀ first second : List Char, (∀ char ∈ first, char ∈ SIGNS) → (∀ char ∈ second, char ∈ SIGNS) →
    (locale.localeCompare (String.ofList first) (String.ofList second) < 0 ↔
      ranks first < ranks second)

theorem dated_moment (moment : Moment) : Dated moment.time :=
  dated_of_within moment.least moment.most

theorem ReadsTimes.compare_lt {locale : Collation} (reads : ReadsTimes locale)
    (time later : Moment) :
    locale.localeCompare (isoText time.time) (isoText later.time) < 0 ↔
      time.time < later.time ∧ ¬ Astray time.time later.time ∨ Astray later.time time.time :=
  (reads _ _ (fun _ => isoChars_signs) (fun _ => isoChars_signs)).trans
    (ranks_lt_iff (dated_moment time) (dated_moment later))

section Ordered

variable (sortRows : ArraySort AuditEvent) (locale : Collation) {batch other : List AuditEvent}

theorem orders_byTime (batch : List AuditEvent) : Orders byTime batch where
  swap first _ second _ := by
    unfold byTime
    omega
  trans first _ second _ third _ near far := by
    unfold byTime at *
    omega

theorem orders_rows (batch : List AuditEvent) : Orders (thenBy byTime (byId locale)) batch :=
  (orders_byTime batch).thenBy
    ⟨fun first _ second _ => locale.swap first.id second.id,
      fun first _ second _ third _ => locale.trans first.id second.id third.id⟩

/-- The rows are read in the order of time. -/
theorem ordered_inTime (batch : List AuditEvent) :
    (ordered sortRows locale batch).Pairwise fun first second =>
      first.at_.time ≤ second.at_.time := by
  refine (sortRows.sorted _ batch (orders_rows locale batch)).imp ?_
  intro first second near
  unfold thenBy byTime at near
  split at near
  · omega
  · omega

theorem ordered_perm (batch : List AuditEvent) : (ordered sortRows locale batch).Perm batch :=
  sortRows.perm _ _

/-- Rows that are told apart by their ids are read in one order. -/
theorem ordered_eq (distinct : (batch.map AuditEvent.id).Nodup)
    (apart : ∀ first ∈ batch, ∀ second ∈ batch,
      locale.localeCompare first.id second.id = 0 → first.id = second.id)
    (same : other.Perm batch) :
    ordered sortRows locale other = ordered sortRows locale batch := by
  refine sortRows.sort_eq_of_perm (orders_rows locale batch) ?_ same
  intro first firstIn second secondIn level
  unfold thenBy at level
  split at level
  · exact inj_on_of_nodup_map distinct firstIn secondIn (apart _ firstIn _ secondIn level)
  · next apart => exact absurd level apart

end Ordered

/-! ### What becomes of a batch -/

/-- A subject stands for a row: it is about the same server, node or row, and the row is one of its
own unless rows of the kind are set aside after the first. -/
def Subject.StandsFor (subject : Subject) (kind : NotificationKind) (event : AuditEvent) : Prop :=
  subject.kind = kind ∧ aboutWhat kind subject.first = aboutWhat kind event ∧
    (event ∈ subject.events ∨ kind = .recoveryAbandoned ∨ kind = .serverUpdate)

section Messages

variable (sortRows : ArraySort AuditEvent) (sort : ArraySort NotificationMessage)
  (locale : Collation) (cleanReason : String → String) (context : Context)
  (batch : List AuditEvent)

/-- The messages of a batch are one of each kind at most, the same for any order of the rows, in
the order of their times, and every row that is told stands in the message of its kind. -/
structure Notified : Prop where
  alike : ∀ other, other.Perm batch →
    messagesFor sortRows sort locale cleanReason other context =
      messagesFor sortRows sort locale cleanReason batch context
  once : ((messagesFor sortRows sort locale cleanReason batch context).map
    NotificationMessage.kind).Nodup
  dated : ∀ message ∈ messagesFor sortRows sort locale cleanReason batch context,
    ∃ moment : Moment, message.at_ = isoText moment.time
  inOrder : (messagesFor sortRows sort locale cleanReason batch context).Pairwise
    fun first second => ∀ time later : Moment, first.at_ = isoText time.time →
      second.at_ = isoText later.time → time.time ≤ later.time
  accounted : ∀ event ∈ batch, ∀ kind, kindOf event.action = some kind →
    (∃ entry ∈ (groupsOf (ordered sortRows locale batch)).entries,
      messageOf cleanReason context entry ∈
          messagesFor sortRows sort locale cleanReason batch context ∧
        (messageOf cleanReason context entry).kind = kind ∧
          ∃ subject ∈ entry.2.members, subject.StandsFor kind event) ∨
    kind = .backupFailed ∧ ∃ node, nodeOf event = some node ∧
      (∃ down ∈ batch, kindOf down.action = some .nodeUnreachable ∧ down.target = some node) ∧
        ∃ message ∈ messagesFor sortRows sort locale cleanReason batch context,
          message.kind = .nodeUnreachable

/-- No two kinds are first told at moments whose texts are the other way round. -/
def InStep : Prop :=
  ∀ kind other time later, Earliest batch kind time → Earliest batch other later →
    ¬ Astray time later

variable {sortRows sort locale cleanReason context batch}

theorem mem_messagesFor {message : NotificationMessage} :
    message ∈ messagesFor sortRows sort locale cleanReason batch context ↔
      ∃ entry ∈ (groupsOf (ordered sortRows locale batch)).entries,
        messageOf cleanReason context entry = message := by
  unfold messagesFor
  rw [sort.mem_sort, List.mem_map]

theorem kind_of_entry {rows : List AuditEvent} {entry : NotificationKind × Group}
    (member : entry ∈ (groupsOf rows).entries) :
    (messageOf cleanReason context entry).kind = entry.1 ∧
      (messageOf cleanReason context entry).at_ = isoText entry.2.began :=
  kind_messageOf cleanReason context (kind_of_member member mem_cons_self).1

/-- There is one message of a kind at most. -/
theorem messages_once : ((messagesFor sortRows sort locale cleanReason batch context).map
    NotificationMessage.kind).Nodup := by
  have kinds : ((groupsOf (ordered sortRows locale batch)).entries.map
      (messageOf cleanReason context)).map NotificationMessage.kind =
        (groupsOf (ordered sortRows locale batch)).entries.map Prod.fst := by
    rw [List.map_map]
    exact map_congr_left fun entry member => (kind_of_entry member).1
  refine ((sort.perm _ _).map NotificationMessage.kind).nodup_iff.mpr ?_
  rw [kinds]
  exact (groupsOf (ordered sortRows locale batch)).distinct

/-- The time of a message is when the first row of its kind was written. -/
theorem at_of_mem {message : NotificationMessage}
    (member : message ∈ messagesFor sortRows sort locale cleanReason batch context) :
    ∃ moment : Moment, Earliest batch message.kind moment.time ∧
      message.at_ = isoText moment.time := by
  obtain ⟨entry, among, rfl⟩ := mem_messagesFor.mp member
  obtain ⟨kind, at_⟩ := @kind_of_entry cleanReason context _ _ among
  have earliest := (Earliest.perm (ordered_perm sortRows locale batch)).mp
    (earliest_of_group (ordered_inTime sortRows locale batch) among)
  obtain ⟨event, -, -, began⟩ := earliest.1
  refine ⟨event.at_, ?_, ?_⟩
  · rw [kind, began]
    exact earliest
  · rw [at_, began]

/-- A kind that is told has a message of the time it was first told. -/
theorem message_of_earliest {kind : NotificationKind} {time : Int}
    (earliest : Earliest batch kind time) :
    ∃ message ∈ messagesFor sortRows sort locale cleanReason batch context,
      message.kind = kind ∧ message.at_ = isoText time := by
  obtain ⟨entry, member, rfl, rfl⟩ := group_of_earliest (ordered_inTime sortRows locale batch)
    ((Earliest.perm (ordered_perm sortRows locale batch)).mpr earliest)
  exact ⟨messageOf cleanReason context entry, mem_messagesFor.mpr ⟨entry, member, rfl⟩,
    kind_of_entry member⟩

/-- A row that is told stands in the message of its kind. -/
theorem accounted_of_told (distinct : (batch.map AuditEvent.id).Nodup) {event : AuditEvent}
    (member : event ∈ batch) {kind : NotificationKind}
    (tells : told (nodesDown batch) event = some kind) :
    ∃ entry ∈ (groupsOf (ordered sortRows locale batch)).entries,
      messageOf cleanReason context entry ∈
          messagesFor sortRows sort locale cleanReason batch context ∧
        (messageOf cleanReason context entry).kind = kind ∧
          ∃ subject ∈ entry.2.members, subject.StandsFor kind event := by
  have same := ordered_perm sortRows locale batch
  obtain ⟨entry, among, rfl, subject, stands, sameKind, read, about, -, merged⟩ :=
    exists_subject (ordered_inTime sortRows locale batch) (same.mem_iff.mpr member)
      ((told_perm same event).trans tells)
  refine ⟨entry, among, mem_messagesFor.mpr ⟨entry, among, rfl⟩, (kind_of_entry among).1, subject,
    stands, sameKind, about, ?_⟩
  -- a row that has a subject of its own is the first of it
  have own (byIds : aboutWhat entry.1 subject.first = subject.first.id)
      (alike : aboutWhat entry.1 event = event.id) : event ∈ subject.events := by
    have ids : event.id = subject.first.id := by rw [← alike, ← about, byIds]
    rw [inj_on_of_nodup_map distinct member (same.mem_iff.mp read) ids]
    exact mem_cons_self
  cases kind : entry.1 with
  | serverCrashed => exact .inl (merged (by rw [kind]; rfl))
  | recoveryAbandoned => exact .inr (.inl rfl)
  | leftStopped => exact .inl (own (by rw [kind]; rfl) (by rw [kind]; rfl))
  | nodeUnreachable => exact .inl (merged (by rw [kind]; rfl))
  | nodeRecovered => exact .inl (merged (by rw [kind]; rfl))
  | backupFailed => exact .inl (own (by rw [kind]; rfl) (by rw [kind]; rfl))
  | backupDamaged => exact .inl (own (by rw [kind]; rfl) (by rw [kind]; rfl))
  | serverUpdate => exact .inr (.inr rfl)
  | panelUpdate => exact .inl (own (by rw [kind]; rfl) (by rw [kind]; rfl))

theorem truthy_eq_some {text : Option String} {known : String} (some_ : truthy text = some known) :
    text = some known :=
  (Option.filter_eq_some_iff.mp some_).1

/-- A node that went quiet has a row that says so. -/
theorem exists_of_mem_nodesDown {node : String} (member : node ∈ nodesDown batch) :
    ∃ down ∈ batch, kindOf down.action = some .nodeUnreachable ∧ down.target = some node := by
  obtain ⟨down, among, quiet⟩ := mem_filterMap.mp member
  split at quiet
  · next action =>
    exact ⟨down, among, kindOf_eq_some.mpr (beq_iff_eq.mp action).symm, truthy_eq_some quiet⟩
  · exact absurd quiet (Option.some_ne_none node).symm

/-- A row of a kind that is not told is a failed backup on a node that went quiet. -/
theorem folded_of_silent {event : AuditEvent} {kind : NotificationKind}
    (known : kindOf event.action = some kind) (silent : told (nodesDown batch) event = none) :
    kind = .backupFailed ∧ ∃ node, nodeOf event = some node ∧
      ∃ down ∈ batch, kindOf down.action = some .nodeUnreachable ∧ down.target = some node := by
  unfold told at silent
  rw [known, Option.filter_some] at silent
  have away : folded (nodesDown batch) kind event = true := by
    by_contra stays
    rw [Bool.not_eq_true] at stays
    rw [stays] at silent
    exact absurd silent (Option.some_ne_none kind)
  unfold folded at away
  obtain ⟨failure, down⟩ := Bool.and_eq_true_iff.mp away
  cases named : truthy (nodeOf event) with
  | none =>
    rw [named, Option.any_none] at down
    exact absurd down Bool.false_ne_true
  | some node =>
    rw [named] at down
    exact ⟨beq_iff_eq.mp (Bool.and_eq_true_iff.mp failure).1, node, truthy_eq_some named,
      exists_of_mem_nodesDown (contains_iff_mem.mp down)⟩

/-- A node that went quiet is told. -/
theorem message_of_down {down : AuditEvent} (member : down ∈ batch)
    (quiet : kindOf down.action = some .nodeUnreachable) :
    ∃ message ∈ messagesFor sortRows sort locale cleanReason batch context,
      message.kind = .nodeUnreachable := by
  have same := ordered_perm sortRows locale batch
  have tells : told (nodesDown (ordered sortRows locale batch)) down = some .nodeUnreachable := by
    rw [told, quiet]
    rfl
  obtain ⟨entry, among, kind, -⟩ := exists_subject (ordered_inTime sortRows locale batch)
    (same.mem_iff.mpr member) tells
  exact ⟨messageOf cleanReason context entry, mem_messagesFor.mpr ⟨entry, among, rfl⟩,
    (kind_of_entry among).1.trans kind⟩

/-- Of two members of a list in order, one stands before the other. -/
theorem either_of_pairwise {Element : Type} {Before : Element → Element → Prop}
    {members : List Element} (inOrder : members.Pairwise Before) {first second : Element}
    (firstIn : first ∈ members) (secondIn : second ∈ members) (different : first ≠ second) :
    Before first second ∨ Before second first := by
  induction members with
  | nil => exact absurd firstIn not_mem_nil
  | cons member members inductionHypothesis =>
    obtain ⟨leads, rest⟩ := pairwise_cons.mp inOrder
    rcases mem_cons.mp firstIn with rfl | firstLater
    · rcases mem_cons.mp secondIn with rfl | secondLater
      · exact absurd rfl different
      · exact .inl (leads second secondLater)
    · rcases mem_cons.mp secondIn with rfl | secondLater
      · exact .inr (leads first firstLater)
      · exact inductionHypothesis rest firstLater secondLater

/-- The messages are in the order of their texts. -/
theorem messages_sorted : (messagesFor sortRows sort locale cleanReason batch context).Pairwise
    fun first second => locale.localeCompare first.at_ second.at_ ≤ 0 :=
  sort.sorted _ _ ⟨fun first _ second _ => locale.swap first.at_ second.at_,
    fun first _ second _ third _ => locale.trans first.at_ second.at_ third.at_⟩

/-- Messages in the order of their texts are in the order of their times when no texts are the
other way round. -/
theorem inOrder_of_inStep (reads : ReadsTimes locale) (inStep : InStep batch) :
    (messagesFor sortRows sort locale cleanReason batch context).Pairwise
      fun first second => ∀ time later : Moment, first.at_ = isoText time.time →
        second.at_ = isoText later.time → time.time ≤ later.time := by
  refine messages_sorted.imp_of_mem ?_
  intro first second firstIn secondIn near time later firstAt secondAt
  obtain ⟨one, earliest, oneAt⟩ := at_of_mem firstIn
  obtain ⟨other, earliestOther, otherAt⟩ := at_of_mem secondIn
  have sameTime := eq_of_isoText_eq (dated_moment one) (dated_moment time)
    (oneAt.symm.trans firstAt)
  have sameLater := eq_of_isoText_eq (dated_moment other) (dated_moment later)
    (otherAt.symm.trans secondAt)
  rw [sameTime] at earliest
  rw [sameLater] at earliestOther
  by_contra after
  have ahead := (reads.compare_lt later time).mpr
    (.inl ⟨Int.not_le.mp after, inStep _ _ _ _ earliestOther earliest⟩)
  rw [← firstAt, ← secondAt] at ahead
  have turned := (locale.swap first.at_ second.at_).mp ahead
  omega

/-- Messages that are in the order of their times have no texts the other way round. -/
theorem inStep_of_inOrder (reads : ReadsTimes locale)
    (inOrder : (messagesFor sortRows sort locale cleanReason batch context).Pairwise
      fun first second => ∀ time later : Moment, first.at_ = isoText time.time →
        second.at_ = isoText later.time → time.time ≤ later.time) : InStep batch := by
  intro kind other time later earliest earliestLater astray
  obtain ⟨⟨event, -, -, rfl⟩, -⟩ := id earliest
  obtain ⟨⟨row, -, -, rfl⟩, -⟩ := id earliestLater
  obtain ⟨first, firstIn, -, firstAt⟩ :=
    @message_of_earliest sortRows sort locale cleanReason context batch kind _ earliest
  obtain ⟨second, secondIn, -, secondAt⟩ :=
    @message_of_earliest sortRows sort locale cleanReason context batch other _ earliestLater
  have different : first ≠ second := by
    rintro rfl
    have same := eq_of_isoText_eq (dated_moment event.at_) (dated_moment row.at_)
      (firstAt.symm.trans secondAt)
    exact absurd astray.1 (by omega)
  have ahead := (reads.compare_lt row.at_ event.at_).mpr (.inr astray)
  rw [← firstAt, ← secondAt] at ahead
  rcases either_of_pairwise (messages_sorted.and inOrder) firstIn secondIn different with
    ⟨near, -⟩ | ⟨-, late⟩
  · have turned := (locale.swap first.at_ second.at_).mp ahead
    omega
  · exact absurd (late row.at_ event.at_ secondAt firstAt) (Int.not_le.mpr astray.1)

/-- Messages tell what there was to tell exactly when no two of their texts are the other way
round. -/
theorem notified_iff (reads : ReadsTimes locale) (distinct : (batch.map AuditEvent.id).Nodup)
    (apart : ∀ first ∈ batch, ∀ second ∈ batch,
      locale.localeCompare first.id second.id = 0 → first.id = second.id) :
    Notified sortRows sort locale cleanReason context batch ↔ InStep batch := by
  constructor
  · intro notified
    exact inStep_of_inOrder reads notified.inOrder
  · intro inStep
    refine ⟨?_, messages_once, ?_, inOrder_of_inStep reads inStep, ?_⟩
    · intro other same
      unfold messagesFor
      rw [ordered_eq sortRows locale distinct apart same]
    · intro message member
      obtain ⟨moment, -, at_⟩ := at_of_mem member
      exact ⟨moment, at_⟩
    · intro event member kind known
      cases tells : told (nodesDown batch) event with
      | some other =>
        obtain rfl := Option.some.inj (known.symm.trans (told_kind tells))
        exact .inl (accounted_of_told distinct member tells)
      | none =>
        obtain ⟨failure, node, named, down, downIn, quiet, target⟩ := folded_of_silent known tells
        exact .inr ⟨failure, node, named, ⟨down, downIn, quiet, target⟩,
          message_of_down downIn quiet⟩

end Messages

/-! ### Batches at the end of four figures -/

/-- The place of a character, with those that moments are not written with after the others. -/
def placeOf (char : Char) : Nat := if char ∈ SIGNS then rank char else 16 + char.toNat

/-- Texts compared character by character, each in its place. -/
def byPlaces : Collation where
  localeCompare first second :=
    Panel.compareUnits (first.toList.map placeOf) (second.toList.map placeOf)
  swap first second := by
    rw [Panel.compareUnits_swap (first.toList.map placeOf)]
    omega
  trans _ _ _ := Panel.compareUnits_trans

theorem byPlaces_readsTimes : ReadsTimes byPlaces := by
  intro first second firstSigns secondSigns
  have places (text : List Char) (signs : ∀ char ∈ text, char ∈ SIGNS) :
      text.map placeOf = ranks text :=
    map_congr_left fun char member => if_pos (signs char member)
  show Panel.compareUnits _ _ < 0 ↔ _
  rw [String.toList_ofList, String.toList_ofList, places first firstSigns,
    places second secondSigns, Panel.compareUnits]
  by_cases same : ranks first = ranks second
  · rw [if_pos same, same]
    exact ⟨fun less => absurd less (Int.lt_irrefl 0), fun less => absurd less (List.lt_irrefl _)⟩
  · rw [if_neg same]
    split
    · next less => exact ⟨fun _ => less, fun _ => by decide⟩
    · next more => exact ⟨fun less => absurd less (by decide), fun less => absurd less more⟩

/-- A row about a node that went quiet, and one about a server that fell over. -/
def outageAt (at_ : Moment) : AuditEvent :=
  ⟨"a", "node.unreachable", at_, "Watchdog", some "north", Record.empty, none, none⟩

def crashAt (at_ : Moment) : AuditEvent :=
  ⟨"b", "server.crashed", at_, "Watchdog", some "survival", Record.empty, none, none⟩

/-- The first moment of the year 10000. -/
def turnOfYear : Moment := ⟨253402300800000, by decide, by decide⟩

def beforeTurn : Moment := ⟨253402300799999, by decide, by decide⟩

theorem notified_before_turn : Notified ArraySort.insertion ArraySort.insertion byPlaces id ⟨none⟩
    [crashAt beforeTurn, outageAt beforeTurn] := by
  refine (notified_iff byPlaces_readsTimes (by decide) (by decide +kernel)).mpr ?_
  intro kind other time later earliest earliestLater astray
  have only (kind : NotificationKind) (time : Int)
      (earliest : Earliest [crashAt beforeTurn, outageAt beforeTurn] kind time) :
      time = beforeTurn.time := by
    obtain ⟨⟨event, member, -, rfl⟩, -⟩ := earliest
    rcases mem_cons.mp member with rfl | last
    · rfl
    · rw [mem_singleton.mp last]
      rfl
  rw [only kind time earliest, only other later earliestLater] at astray
  exact absurd astray.1 (Int.lt_irrefl _)

/-- A crash at the turn of the year 10000 is told before an outage just before it. -/
theorem later_told_first :
    ¬ ∀ (sortRows : ArraySort AuditEvent) (sort : ArraySort NotificationMessage)
      (locale : Collation) (cleanReason : String → String) (context : Context)
      (batch : List AuditEvent), ReadsTimes locale → (batch.map AuditEvent.id).Nodup →
      (∀ first ∈ batch, ∀ second ∈ batch,
        locale.localeCompare first.id second.id = 0 → first.id = second.id) →
      Notified sortRows sort locale cleanReason context batch := by
  intro always
  have notified := always ArraySort.insertion ArraySort.insertion byPlaces id ⟨none⟩
    [outageAt beforeTurn, crashAt turnOfYear] byPlaces_readsTimes (by decide) (by decide +kernel)
  have texts : (messagesFor ArraySort.insertion ArraySort.insertion byPlaces id
      [outageAt beforeTurn, crashAt turnOfYear] ⟨none⟩).map NotificationMessage.at_ =
        [isoText turnOfYear.time, isoText beforeTurn.time] := by decide +kernel
  have inOrder : ((messagesFor ArraySort.insertion ArraySort.insertion byPlaces id
      [outageAt beforeTurn, crashAt turnOfYear] ⟨none⟩).map NotificationMessage.at_).Pairwise
        fun first second => ∀ time later : Moment, first = isoText time.time →
          second = isoText later.time → time.time ≤ later.time :=
    pairwise_map.mpr notified.inOrder
  rw [texts] at inOrder
  exact absurd ((pairwise_cons.mp inOrder).1 _ (mem_singleton_self _) turnOfYear
    beforeTurn rfl rfl) (by decide)

end Geeboard.Notify.Rules
