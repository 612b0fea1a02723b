/-
This file is about whose records and addresses the panel touches.

A record is a server's own when its comment is the server's marker, or when it was
adopted. What a row names by an id is that, unless somebody else changed the record
where it is: a run writes ids of its own records into rows only. A row without an id
names whatever the provider has at its name, and a subdomain is asked about under the
host of the server and not under the name of the row. Where neither leads to something
of somebody else's, nothing of somebody else's is touched, whatever fails on the way.
-/

import Geeboard.Dns.Sync
import Geeboard.Systems.Steps
import Mathlib.Data.List.Nodup

namespace Geeboard.Dns

open List Option

/-! ### Whose a record is -/

def Marks (server : ServerId) (record : DnsRecord) : Prop := record.comment = markerFor server

/-- A record that is a server's own. -/
def World.Own (world : World) (server : ServerId) (record : DnsRecord) : Prop :=
  Marks server record ∨ record.id ∈ world.adopted

/-- Something that was done to what was the server's own to touch. -/
def Touch.Own : Touch → Prop
  | .overwritten server before says_ => Marks server before ∨ says_ = true
  | .removed server before adopted => Marks server before ∨ adopted = true
  | .cleared _ _ others => others = []

/-- An id a row of a server may hold. -/
def World.Backed (world : World) (server : ServerId) (id : Nat) : Prop :=
  id < world.next ∧ ∀ record ∈ world.records, record.id = id →
    world.Own server record ∨ id ∈ world.edited

structure Grounded (world : World) : Prop where
  unique : (world.records.map (·.id)).Nodup
  fresh : ∀ record ∈ world.records, record.id < world.next
  rows : ∀ server ∈ world.servers, ∀ row ∈ server.rows, ∀ id, row.recordId = some id →
    world.Backed server.id id
  own : ∀ touch ∈ world.log, touch.Own

/-! ### Which rows may be let go of -/

/-- Letting go of a row touches nothing that is somebody else's: one without an id has no other
record of its kind at its name; the record of an id is the server's own still, if somebody changed
it; and under another subdomain than the host's there is no other server. A row that is only let
go of where the host's subdomain is not shared is `spared` where it is. -/
def RowFits (kind : DnsKind) (world : World) (server : ServerId) (host : String) (spared : Bool)
    (row : DnsRow) : Prop :=
  match kind with
  | .cloudflare =>
    match row.recordId with
    | none => ∀ record ∈ world.records, record.name = row.name → record.type = row.kind.text →
      world.Own server record
    | some id => ∀ record ∈ world.records, record.id = id → id ∈ world.edited →
      world.Own server record
  | .duckdns => ∀ base, duckBase row.name = some base →
    (spared = true → duckBase host ≠ some base ∧ sharingBase .duckdns world server host = []) →
      underBase world server base = []
  | .webhook => True

/-- A sync lets go of rows whose kind is not wanted, and of rows at another name. -/
def SyncFits (kind : DnsKind) (zone : String) (world : World) (server : Server) (node : Node) :
    Prop :=
  coveredBy kind zone server.host = true →
    ∀ wanted, wantedRecords server.host node.facts kind (srvFor server) = .ok wanted →
      (∀ row ∈ unwantedRows server.rows wanted,
        RowFits kind world server.id server.host true row) ∧
      ∀ record ∈ wanted, ∀ row ∈ server.rows, row.kind = record.kind →
        movedAway kind row record = true → RowFits kind world server.id server.host false row

section Fits

variable (kind : DnsKind) (zone : String) (spell : String → Option String)

/-- A pass, asked at each of its servers. -/
def PassFits (fates : ServerId → Fates) (now : Nat) : World → List (Server × Node) → Prop
  | _, [] => True
  | world, (server, node) :: rest =>
    if !dnsNeedsSync server.host server.rows kind zone node.facts (srvFor server) now then
      PassFits fates now world rest
    else
      SyncFits kind zone world server node ∧
        ((syncLoaded kind zone spell world server node (fates server.id) now false).1.unreachable =
            false →
          PassFits fates now
            (syncLoaded kind zone spell world server node (fates server.id) now false).2 rest)

/-- No run lets go of a row that does not fit. -/
def Fits (world : World) : Event → Prop
  | .sync id _ _ _ => ∀ server ∈ world.servers, server.id = id →
    ∀ node, nodeOf world server = some node → SyncFits kind zone world server node
  | .forget id host _ _ => ∀ server ∈ world.servers, server.id = id →
    ∀ row ∈ server.rows, RowFits kind world id host true row
  | .reconcile fates now => PassFits kind zone spell fates now world (reconciled world)
  | _ => True

end Fits

/-! ### What a run for one server leaves as it is -/

/-- What a run for a server does to everything else: records are as they were, or marked as the
server's; what could be held can be; and hosts stay. -/
structure RunsFor (server : ServerId) (before after : World) : Prop where
  records : ∀ record ∈ after.records, record ∈ before.records ∨ Marks server record
  adopted : ∀ id ∈ before.adopted, id ∈ after.adopted
  edited : after.edited = before.edited
  backed : ∀ other id, before.Backed other id → after.Backed other id
  hosts : after.servers.map (fun server => (server.id, server.host)) =
    before.servers.map fun server => (server.id, server.host)

variable {kind : DnsKind} {world before middle after : World} {server : ServerId}

theorem RunsFor.refl (server : ServerId) (world : World) : RunsFor server world world where
  records _ recordIn := Or.inl recordIn
  adopted _ idIn := idIn
  edited := rfl
  backed _ _ backed := backed
  hosts := rfl

theorem RunsFor.trans (first : RunsFor server before middle)
    (second : RunsFor server middle after) : RunsFor server before after where
  records record recordIn := by
    obtain stayed | marked := second.records record recordIn
    · exact first.records record stayed
    · exact Or.inr marked
  adopted id idIn := second.adopted id (first.adopted id idIn)
  edited := second.edited.trans first.edited
  backed other id backed := second.backed other id (first.backed other id backed)
  hosts := second.hosts.trans first.hosts

theorem RunsFor.own (runs : RunsFor server before after) {record : DnsRecord}
    (recordIn : record ∈ after.records) (own : record ∈ before.records → before.Own server record) :
    after.Own server record := by
  obtain stayed | marked := runs.records record recordIn
  · exact (own stayed).imp id (runs.adopted record.id)
  · exact Or.inl marked

theorem underBase_eq_nil {base : String} :
    underBase world server base = [] ↔
      ∀ pair ∈ world.servers.map (fun other => (other.id, other.host)), pair.1 ≠ server →
        ¬ (pair.2.toList == (base ++ ".duckdns.org").toList ||
          ('.' :: (base ++ ".duckdns.org").toList).isSuffixOf pair.2.toList) = true := by
  unfold underBase
  rw [filter_eq_nil_iff, List.forall_mem_map]
  simp only [Bool.and_eq_true, bne_iff_ne, not_and]

theorem RunsFor.underBase (runs : RunsFor server before after) {base : String} :
    underBase after server base = [] ↔ Dns.underBase before server base = [] := by
  rw [underBase_eq_nil, underBase_eq_nil, runs.hosts]

theorem RunsFor.sharingBase (runs : RunsFor server before after) {host : String} :
    sharingBase kind after server host = [] ↔ Dns.sharingBase kind before server host = [] := by
  unfold Dns.sharingBase
  split
  · exact Iff.rfl
  · exact runs.underBase

/-- A row that fits fits after more of the same server's run. -/
theorem RunsFor.rowFits (runs : RunsFor server before after) {host : String} {spared : Bool}
    {row : DnsRow} (fits : RowFits kind before server host spared row) :
    RowFits kind after server host spared row := by
  unfold RowFits at fits ⊢
  cases kind with
  | cloudflare =>
    cases isId : row.recordId with
    | none =>
      rw [isId] at fits
      exact fun record recordIn name type =>
        runs.own recordIn fun stayed => fits record stayed name type
    | some id =>
      rw [isId] at fits
      intro record recordIn isRecord edited
      rw [runs.edited] at edited
      exact runs.own recordIn fun stayed => fits record stayed isRecord edited
  | duckdns =>
    intro base isBase alone
    exact runs.underBase.mpr (fits base isBase fun isSpared =>
      ⟨(alone isSpared).1, runs.sharingBase.mp (alone isSpared).2⟩)
  | webhook => exact trivial

/-! ### The provider's calls -/

variable {spell : String → Option String} {number : Nat} {fate : Fate}

/-- What a step of a server's run does and keeps. -/
def Safe (server : ServerId) (before after : World) : Prop :=
  RunsFor server before after ∧ Grounded after

/-- A change of the records alone that keeps what can be held. -/
theorem safe_of_records (grounded : Grounded world) (same : after.servers = world.servers)
    (records : ∀ record ∈ after.records, record ∈ world.records ∨ Marks server record)
    (adopted : ∀ id ∈ world.adopted, id ∈ after.adopted) (edited : after.edited = world.edited)
    (backed : ∀ other id, world.Backed other id → after.Backed other id)
    (unique : (after.records.map (·.id)).Nodup)
    (fresh : ∀ record ∈ after.records, record.id < after.next)
    (own : ∀ touch ∈ after.log, touch.Own) : Safe server world after where
  left := ⟨records, adopted, edited, backed, by rw [same]⟩
  right := by
    refine ⟨unique, fresh, ?_, own⟩
    rw [same]
    exact fun other otherIn row rowIn id isId =>
      backed other.id id (grounded.rows other otherIn row rowIn id isId)

theorem Safe.refl (grounded : Grounded world) : Safe server world world :=
  ⟨RunsFor.refl server world, grounded⟩

theorem Safe.trans (first : Safe server before middle) (second : Safe server middle after) :
    Safe server before after :=
  ⟨first.1.trans second.1, second.2⟩

theorem own_append {log : List Touch} {touch : Touch} (own : ∀ touch ∈ log, touch.Own)
    (last : touch.Own) : ∀ other ∈ log ++ [touch], other.Own := by
  intro other otherIn
  obtain before | here := mem_append.mp otherIn
  · exact own other before
  · rwa [mem_singleton.mp here]

/-- The record of an id. -/
theorem record_of_find {record : DnsRecord}
    (found : (world.records.find? fun record => record.id == number) = some record) :
    record ∈ world.records ∧ record.id = number := by
  have isNumber := find?_some found
  exact ⟨mem_of_find?_eq_some found, beq_iff_eq.mp isNumber⟩

/-- Removing the server's own record. -/
theorem safe_deleteRecord (grounded : Grounded world)
    (own : ∀ record ∈ world.records, record.id = number → world.Own server record) :
    Safe server world (deleteRecord world server number fate).2 := by
  unfold deleteRecord
  split
  · exact Safe.refl grounded
  case h_2 record found =>
  obtain ⟨recordIn, isNumber⟩ := record_of_find found
  dsimp only
  split
  · refine safe_of_records grounded rfl
      (fun other otherIn => Or.inl (mem_of_mem_filter otherIn)) (fun _ idIn => idIn) rfl (fun other number backed => ⟨backed.1, fun one oneIn isOne =>
        backed.2 one (mem_of_mem_filter oneIn) isOne⟩)
      (grounded.unique.sublist (filter_sublist.map _))
      (fun other otherIn => grounded.fresh other (mem_of_mem_filter otherIn))
      (own_append grounded.own ?_)
    refine (own record recordIn isNumber).imp id fun adopted => ?_
    rw [isNumber] at adopted
    exact contains_iff_mem.mpr adopted
  · exact Safe.refl grounded

/-- Clearing a subdomain that no other server uses. -/
theorem safe_clearBase {base : String} (grounded : Grounded world)
    (alone : underBase world server base = []) :
    Safe server world (clearBase world server base fate).2 := by
  unfold clearBase
  dsimp only
  split
  · refine safe_of_records grounded rfl (fun _ recordIn => Or.inl recordIn) (fun _ idIn => idIn) rfl
      (fun _ _ backed => backed) grounded.unique grounded.fresh (own_append grounded.own ?_)
    rw [alone]
    exact map_nil
  · exact Safe.refl grounded

theorem safe_postRecord {wanted : WantedRecord} (grounded : Grounded world) :
    Safe server world (postRecord world wanted (markerFor server) fate).2 ∧
      ∀ id, (postRecord world wanted (markerFor server) fate).1 = .ok (some id) →
        (postRecord world wanted (markerFor server) fate).2.Backed server id := by
  unfold postRecord
  have isNew {record : DnsRecord}
      (recordIn : record ∈ world.records ++ [⟨world.next, wanted.kind.text, wanted.name,
        wanted.content, markerFor server⟩]) :
      record ∈ world.records ∨ record.id = world.next ∧ Marks server record := by
    refine (mem_append.mp recordIn).imp id fun here => ?_
    rw [mem_singleton.mp here]
    exact ⟨rfl, rfl⟩
  constructor
  · dsimp only
    split
    · refine safe_of_records grounded rfl (fun record recordIn => (isNew recordIn).imp id And.right)
        (fun _ idIn => idIn) rfl (fun other number backed => ⟨Nat.lt_succ_of_lt backed.1,
          fun record recordIn isRecord => ?_⟩) ?_ (fun record recordIn => ?_) grounded.own
      · obtain stayed | ⟨isNext, -⟩ := isNew recordIn
        · exact backed.2 record stayed isRecord
        · exact absurd backed.1 (by rw [← isRecord, isNext]; exact lt_irrefl _)
      · rw [map_append, map_singleton]
        refine Nodup.append grounded.unique (nodup_singleton _) ?_
        intro number numberIn isNext
        obtain ⟨record, recordIn, rfl⟩ := List.mem_map.mp numberIn
        exact absurd (grounded.fresh record recordIn)
          (by rw [mem_singleton.mp isNext]; exact lt_irrefl _)
      · obtain stayed | ⟨isNext, -⟩ := isNew recordIn
        · exact Nat.lt_succ_of_lt (grounded.fresh record stayed)
        · rw [isNext]
          exact Nat.lt_succ_self _
    · exact Safe.refl grounded
  · intro number isNumber
    dsimp only at isNumber ⊢
    split at isNumber
    · cases isNumber
    case h_2 done =>
      obtain rfl := some.inj (Except.ok.inj isNumber)
      have happens : fate.happens = true := by
        unfold Fate.happens
        rw [done]
        rfl
      rw [if_pos happens]
      refine ⟨Nat.lt_succ_self _, fun record recordIn isRecord => Or.inl (Or.inl ?_)⟩
      obtain stayed | ⟨-, marked⟩ := isNew recordIn
      · exact absurd (grounded.fresh record stayed) (by rw [isRecord]; exact lt_irrefl _)
      · exact marked

/-- Writing over a record that is marked as the server's or says what is wanted. -/
theorem safe_putRecord {wanted : WantedRecord} (grounded : Grounded world)
    (fits : ∀ record ∈ world.records, record.id = number →
      Marks server record ∨ saysWanted spell record wanted = true) :
    Safe server world (putRecord spell world server wanted (markerFor server) number fate).2 ∧
      ∀ id,
        (putRecord spell world server wanted (markerFor server) number fate).1 = .ok (some id) →
          (putRecord spell world server wanted (markerFor server) number fate).2.Backed server
            id := by
  unfold putRecord
  split
  · exact ⟨Safe.refl grounded, fun _ none => by cases none⟩
  case h_2 record found =>
  obtain ⟨recordIn, isNumber⟩ := record_of_find found
  have isNew {other : DnsRecord} (otherIn : other ∈ world.records.map fun other =>
      if other.id = number then
        ⟨number, wanted.kind.text, wanted.name, wanted.content, markerFor server⟩
      else other) :
      (other ∈ world.records ∧ other.id ≠ number) ∨ (other.id = number ∧ Marks server other) := by
    obtain ⟨old, oldIn, rfl⟩ := List.mem_map.mp otherIn
    split
    · exact Or.inr ⟨rfl, rfl⟩
    case isFalse another => exact Or.inl ⟨oldIn, another⟩
  constructor
  · dsimp only
    split
    · refine safe_of_records grounded rfl
        (fun other otherIn => (isNew otherIn).imp And.left And.right) (fun id idIn => ?_) rfl
        (fun other id backed => ⟨backed.1, fun one oneIn isOne => ?_⟩) ?_
        (fun other otherIn => ?_) (own_append grounded.own (fits record recordIn isNumber))
      · split
        · exact idIn
        · exact mem_cons_of_mem _ idIn
      · obtain ⟨stayed, -⟩ | ⟨isSame, marked⟩ := isNew oneIn
        · refine (backed.2 one stayed isOne).imp (fun own => own.imp (fun marks => marks) ?_)
            fun edited => edited
          intro adopted
          dsimp only
          split
          · exact adopted
          · exact mem_cons_of_mem _ adopted
        · -- The record was another server's: then it was adopted before, or it is now.
          have before := backed.2 record recordIn (isNumber.trans (isSame.symm.trans isOne))
          refine before.imp (fun own => ?_) fun edited => edited
          unfold World.Own Marks
          dsimp only
          split
          case isTrue marksOurs =>
            refine own.imp (fun marks => ?_) fun adopted => ?_
            · exact marked.trans (marksOurs.symm.trans marks)
            · rwa [isSame, ← isNumber]
          case isFalse =>
            rw [isSame]
            exact Or.inr mem_cons_self
      · have sameIds : (world.records.map fun other =>
            if other.id = number then
              ⟨number, wanted.kind.text, wanted.name, wanted.content, markerFor server⟩
            else other).map (·.id) = world.records.map (·.id) := by
          rw [List.map_map]
          refine map_congr_left fun other _ => ?_
          rw [Function.comp_apply]
          split
          case isTrue same => exact same.symm
          case isFalse => rfl
        rw [sameIds]
        exact grounded.unique
      · obtain ⟨stayed, -⟩ | ⟨isSame, -⟩ := isNew otherIn
        · exact grounded.fresh other stayed
        · rw [isSame, ← isNumber]
          exact grounded.fresh record recordIn
    · exact Safe.refl grounded
  · intro id isId
    dsimp only at isId ⊢
    split at isId
    · cases isId
    case h_2 done =>
      obtain rfl := some.inj (Except.ok.inj isId)
      have happens : fate.happens = true := by
        unfold Fate.happens
        rw [done]
        rfl
      rw [if_pos happens]
      refine ⟨isNumber ▸ grounded.fresh record recordIn, fun other otherIn isOther => ?_⟩
      obtain ⟨-, another⟩ | ⟨-, marked⟩ := isNew otherIn
      · exact absurd isOther another
      · exact Or.inl (Or.inl marked)

/-- Removing the record of a row that fits. A shared subdomain of the host's is not cleared. -/
theorem safe_removeRecord {host : String} {spared : Bool} {row : DnsRow} {fates : Fates}
    (grounded : Grounded world) (fits : RowFits kind world server host spared row)
    (backed : ∀ id, row.recordId = some id → world.Backed server id)
    (alone : kind = .duckdns → spared = true → sharingBase .duckdns world server host = []) :
    Safe server world
      (removeRecord kind world server row.kind row.name row.recordId fates).2 := by
  unfold removeRecord
  cases kind with
  | cloudflare =>
    dsimp only
    unfold RowFits at fits
    dsimp only at fits
    split
    case h_1 id isId =>
      rw [isId] at fits
      refine safe_deleteRecord grounded fun record recordIn isRecord => ?_
      obtain own | edited := (backed id isId).2 record recordIn isRecord
      · exact own
      · exact fits record recordIn isRecord edited
    case h_2 isId =>
      rw [isId] at fits
      split
      · exact Safe.refl grounded
      case h_2 found isFound =>
      split
      · exact Safe.refl grounded
      case h_2 record isRecord =>
      have amongFound : found = recordsAt world row.name := by
        unfold readRecords at isFound
        split at isFound
        · cases isFound
        · exact (Except.ok.inj isFound).symm
      have type := find?_some isRecord
      have recordIn := mem_of_find?_eq_some isRecord
      rw [amongFound] at recordIn
      obtain ⟨recordIn, name⟩ := mem_filter.mp recordIn
      refine safe_deleteRecord grounded fun other otherIn sameId => ?_
      obtain rfl := inj_on_of_nodup_map grounded.unique otherIn recordIn sameId
      exact fits other recordIn (beq_iff_eq.mp name) (beq_iff_eq.mp type)
  | duckdns =>
    dsimp only
    split
    · exact Safe.refl grounded
    case h_2 base isBase =>
      refine safe_clearBase grounded ?_
      cases spared with
      | true =>
        by_cases same : duckBase host = some base
        · have none := alone rfl rfl
          unfold sharingBase at none
          rwa [if_pos rfl, same] at none
        · exact fits base isBase fun _ => ⟨same, alone rfl rfl⟩
      | false => exact fits base isBase nofun
  | webhook => exact Safe.refl grounded

/-- Writing a record, anew or over one that may be written over. -/
theorem safe_writeRecord {wanted : WantedRecord} {over_ : Option Nat} (grounded : Grounded world)
    (fits : kind = .cloudflare → ∀ id, over_ = some id → ∀ record ∈ world.records,
      record.id = id → Marks server record ∨ saysWanted spell record wanted = true) :
    Safe server world (writeRecord spell kind world server wanted over_ fate).2 ∧
      ∀ id, (writeRecord spell kind world server wanted over_ fate).1 = .ok (some id) →
        (writeRecord spell kind world server wanted over_ fate).2.Backed server id := by
  unfold writeRecord
  cases kind with
  | cloudflare =>
    cases over_ with
    | none => exact safe_postRecord grounded
    | some id => exact safe_putRecord grounded (fits rfl id rfl)
  | duckdns =>
    dsimp only
    split
    · exact ⟨Safe.refl grounded, fun _ none => by cases none⟩
    split
    · exact ⟨Safe.refl grounded, fun _ none => by cases none⟩
    · exact ⟨Safe.refl grounded, fun _ none => by cases none⟩
    · exact ⟨Safe.refl grounded, fun _ none => by cases none⟩
  | webhook =>
    dsimp only
    split
    · exact ⟨Safe.refl grounded, fun _ none => by cases none⟩
    · exact ⟨Safe.refl grounded, fun _ none => by cases none⟩

/-! ### Rows -/

/-- The ids in some rows are ones the server may hold. -/
def RowsBacked (world : World) (server : ServerId) (rows : List DnsRow) : Prop :=
  ∀ row ∈ rows, ∀ id, row.recordId = some id → world.Backed server id

theorem RunsFor.rowsBacked (runs : RunsFor server before after) {other : ServerId}
    {rows : List DnsRow} (backed : RowsBacked before other rows) : RowsBacked after other rows :=
  fun row rowIn id isId => runs.backed other id (backed row rowIn id isId)

theorem safe_withRows {change : List DnsRow → List DnsRow} (grounded : Grounded world)
    (keeps : ∀ rows, RowsBacked world server rows → RowsBacked world server (change rows)) :
    Safe server world (withRows world server change) := by
  refine ⟨⟨fun _ recordIn => Or.inl recordIn, fun _ idIn => idIn, rfl, fun _ _ backed => backed,
    ?_⟩, ⟨grounded.unique, grounded.fresh, ?_, grounded.own⟩⟩
  · unfold withRows
    rw [List.map_map]
    refine map_congr_left fun other _ => ?_
    rw [Function.comp_apply]
    split <;> rfl
  · intro other otherIn
    obtain ⟨old, oldIn, rfl⟩ := List.mem_map.mp otherIn
    split
    case isTrue same =>
      have backed := grounded.rows old oldIn
      rw [same] at backed
      intro row rowIn id isId
      have kept := keeps old.rows backed row rowIn id isId
      rwa [← same] at kept
    case isFalse => exact grounded.rows old oldIn

theorem rowsBacked_filter {keep : DnsRow → Bool} {rows : List DnsRow}
    (backed : RowsBacked world server rows) : RowsBacked world server (rows.filter keep) :=
  fun row rowIn => backed row (mem_of_mem_filter rowIn)

/-- Rows that hold the ids they held. -/
theorem rowsBacked_map {change : DnsRow → DnsRow} {rows : List DnsRow}
    (same : ∀ row, (change row).recordId = row.recordId) (backed : RowsBacked world server rows) :
    RowsBacked world server (rows.map change) := by
  intro row rowIn id isId
  obtain ⟨old, oldIn, rfl⟩ := List.mem_map.mp rowIn
  exact backed old oldIn id ((same old).symm.trans isId)

theorem rowsBacked_upsert {wanted : WantedRecord} {now : Nat} {outcome : Except String Kept}
    {rows : List DnsRow} (backed : RowsBacked world server rows)
    (kept : ∀ what, outcome = .ok what → ∀ id, what.recordId = some id → world.Backed server id) :
    RowsBacked world server (upsert wanted now outcome rows) := by
  unfold upsert
  split
  · intro row rowIn id isId
    obtain ⟨old, oldIn, rfl⟩ := List.mem_map.mp rowIn
    split at isId
    · exact backed old oldIn id isId
    cases outcome with
    | error reason => exact backed old oldIn id isId
    | ok what => exact kept what rfl id isId
  · intro row rowIn id isId
    obtain old | new := mem_append.mp rowIn
    · exact backed row old id isId
    · rw [mem_singleton.mp new] at isId
      cases outcome with
      | error reason => cases isId
      | ok what => exact kept what rfl id isId

/-! ### One server -/

variable {sync : Sync} {wanted : WantedRecord} {force : Bool}

theorem safe_fail {reason : String} {unreachable : Bool} (grounded : Grounded world) :
    Safe sync.server.id world (sync.fail world wanted reason unreachable).2 :=
  safe_withRows grounded fun _ backed => rowsBacked_upsert backed fun _ none => by cases none

theorem safe_keep {id : Option Nat} {adopted : Bool} (grounded : Grounded world)
    (backed : ∀ number, id = some number → world.Backed sync.server.id number) :
    Safe sync.server.id world (sync.keep world wanted id adopted).2 := by
  refine safe_withRows grounded fun rows rowsBacked => rowsBacked_upsert rowsBacked ?_
  intro what isWhat number isNumber
  rw [← Except.ok.inj isWhat] at isNumber
  exact backed number isNumber

/-- A decision that may be carried out. -/
structure Decided (sync : Sync) (world : World) (wanted : WantedRecord) (decision : DnsDecision) :
    Prop where
  writes : sync.kind = .cloudflare → ∀ id, decision.id = some id → ∀ record ∈ world.records,
    record.id = id → Marks sync.server.id record ∨ saysWanted sync.spell record wanted = true
  keeps : ∀ id, decision = .nothing (some id) → world.Backed sync.server.id id

theorem safe_carryOut {decision : DnsDecision} (grounded : Grounded world)
    (decided : Decided sync world wanted decision) :
    Safe sync.server.id world (sync.carryOut world wanted force decision).2 := by
  obtain ⟨safe, backed⟩ := @safe_writeRecord sync.kind world sync.server.id sync.spell
    (sync.fates wanted.kind .write) wanted decision.id grounded decided.writes
  have failed {failure next} (isNext : writeRecord sync.spell sync.kind world sync.server.id wanted
      decision.id (sync.fates wanted.kind .write) = (.error failure, next)) :
      Safe sync.server.id world
        (sync.fail next wanted failure.message failure.unreachable).2 := by
    rw [isNext] at safe
    exact safe.trans (safe_fail safe.2)
  have written (adopts : Bool) {id next} (isNext : writeRecord sync.spell sync.kind world
      sync.server.id wanted decision.id (sync.fates wanted.kind .write) = (.ok id, next)) :
      Safe sync.server.id world (sync.keep next wanted id adopts).2 := by
    rw [isNext] at safe backed
    exact safe.trans (safe_keep safe.2 fun number isNumber =>
      backed number (congrArg Except.ok isNumber))
  unfold Sync.carryOut
  cases decision with
  | refuse reason => exact safe_fail grounded
  | nothing id =>
    dsimp only
    split
    · exact safe_keep grounded fun number isNumber => decided.keeps number (congrArg _ isNumber)
    · split
      · exact failed ‹_›
      · exact written _ ‹_›
  | _ =>
    dsimp only
    rw [if_neg Bool.false_ne_true]
    split
    · exact failed ‹_›
    · exact written _ ‹_›

/-- A decision about a record is about one that is there, and that is marked or says the same. -/
theorem mem_of_decideRecord {existing : List DnsRecord} {marker : String} {id : Nat}
    (isId : (decideRecord spell existing wanted marker).id = some id) :
    ∃ record ∈ existing, record.id = id ∧
      (record.comment = marker ∨ saysWanted spell record wanted = true) := by
  unfold decideRecord at isId
  split at isId
  · cases isId
  split at isId
  · cases isId
  case h_2 only isOnly =>
    have onlyIn : only ∈ existing :=
      mem_of_mem_filter (isOnly ▸ mem_singleton_self only)
    split at isId
    case isTrue same =>
      split at isId
      · exact ⟨only, onlyIn, some.inj isId, Or.inr same⟩
      · exact ⟨only, onlyIn, some.inj isId, Or.inr same⟩
    case isFalse =>
      split at isId
      case isTrue marked =>
        exact ⟨only, onlyIn, some.inj isId, Or.inl (beq_iff_eq.mp marked)⟩
      case isFalse => cases isId
  · cases isId

theorem mem_of_nothing {existing : List DnsRecord} {marker : String} {id : Nat}
    (isNothing : decideRecord spell existing wanted marker = .nothing (some id)) :
    ∃ record ∈ existing, record.id = id ∧ record.comment = marker := by
  unfold decideRecord at isNothing
  split at isNothing
  · cases isNothing
  split at isNothing
  · cases isNothing
  case h_2 only isOnly =>
    have onlyIn : only ∈ existing :=
      mem_of_mem_filter (isOnly ▸ mem_singleton_self only)
    split at isNothing
    · split at isNothing
      case isTrue marked =>
        exact ⟨only, onlyIn, some.inj (DnsDecision.nothing.inj isNothing),
          beq_iff_eq.mp marked⟩
      case isFalse => cases isNothing
    · split at isNothing
      · cases isNothing
      · cases isNothing
  · cases isNothing

/-- What a read record says is what the provider's record of its id says. -/
theorem decided_of_read (grounded : Grounded world) {existing : List DnsRecord}
    (among : ∀ record ∈ existing, record ∈ world.records) :
    Decided sync world wanted
      (decideRecord sync.spell existing wanted (markerFor sync.server.id)) where
  writes _ id isId record recordIn isRecord := by
    obtain ⟨read, readIn, sameId, allowed⟩ := mem_of_decideRecord isId
    obtain rfl := inj_on_of_nodup_map grounded.unique recordIn (among read readIn)
      (isRecord.trans sameId.symm)
    exact allowed
  keeps id isNothing := by
    obtain ⟨read, readIn, rfl, marked⟩ := mem_of_nothing isNothing
    refine ⟨grounded.fresh read (among read readIn), fun record recordIn isRecord => ?_⟩
    obtain rfl := inj_on_of_nodup_map grounded.unique recordIn (among read readIn) isRecord
    exact Or.inl (Or.inl marked)

theorem safe_settle {row : Option DnsRow} (grounded : Grounded world)
    (backed : ∀ old, row = some old → ∀ id, old.recordId = some id →
      world.Backed sync.server.id id) :
    Safe sync.server.id world (sync.settle world wanted force row).2 := by
  unfold Sync.settle
  split
  · exact safe_fail grounded
  case h_2 existing isExisting =>
    have among : ∀ record ∈ existing, record ∈ world.records := by
      unfold readRecords at isExisting
      intro record recordIn
      split at isExisting
      · split at isExisting
        · cases isExisting
        · rw [← Except.ok.inj isExisting] at recordIn
          cases recordIn
      · rw [← Except.ok.inj isExisting] at recordIn
        split at recordIn
        · exact mem_of_mem_filter recordIn
        · cases recordIn
    refine safe_carryOut grounded ?_
    split
    case isTrue known =>
      refine ⟨fun reads => ?_, fun id isNothing => ?_⟩
      · rw [reads] at known
        cases known
      · obtain ⟨old, isOld, isId⟩ :=
          bind_eq_some_iff.mp (DnsDecision.nothing.inj isNothing)
        exact backed old isOld id isId
    case isFalse => exact decided_of_read grounded among

theorem safe_share {row : Option DnsRow} (grounded : Grounded world)
    (backed : ∀ old, row = some old → ∀ id, old.recordId = some id →
      world.Backed sync.server.id id) :
    Safe sync.server.id world (sync.share world wanted force row).2 := by
  unfold Sync.share
  split
  · split
    · exact safe_fail grounded
    · split
      · exact safe_keep grounded fun _ none => by cases none
      · exact safe_settle grounded backed
  · exact safe_settle grounded backed

/-- A run for a server as it goes: its rows hold ids they may, and it knows who shares its host's
subdomain. -/
structure Loaded (sync : Sync) (world : World) : Prop where
  grounded : Grounded world
  rows : RowsBacked world sync.server.id sync.server.rows
  siblings : sync.kind = .duckdns →
    (sync.siblings = [] ↔ sharingBase .duckdns world sync.server.id sync.server.host = [])

theorem Loaded.next (loaded : Loaded sync before) (safe : Safe sync.server.id before after) :
    Loaded sync after where
  grounded := safe.2
  rows := safe.1.rowsBacked loaded.rows
  siblings isDuck := (loaded.siblings isDuck).trans safe.1.sharingBase.symm

/-- Taking the record of a row away that fits. -/
theorem safe_removeRow {row : DnsRow} (loaded : Loaded sync world)
    (fits : RowFits sync.kind world sync.server.id sync.server.host true row)
    (backed : ∀ id, row.recordId = some id → world.Backed sync.server.id id) :
    Safe sync.server.id world (sync.removeRow world row).2 := by
  unfold Sync.removeRow
  dsimp only
  split
  · exact safe_withRows loaded.grounded fun _ backed => rowsBacked_filter backed
  case isFalse shared =>
    have safe := @safe_removeRecord sync.kind world sync.server.id sync.server.host true row
      sync.fates loaded.grounded fits backed fun isDuck _ => by
        refine (loaded.siblings isDuck).mp (List.isEmpty_iff.mp ?_)
        rw [isDuck] at shared
        simpa using shared
    split
    case h_1 next isNext =>
      rw [isNext] at safe
      exact safe.trans (safe_withRows safe.2 fun _ backed => rowsBacked_filter backed)
    case h_2 failure next isNext =>
      rw [isNext] at safe
      refine safe.trans (safe_withRows safe.2 fun _ backed =>
        rowsBacked_map (fun other => ?_) backed)
      split <;> rfl

theorem safe_dropUnwanted {rows : List DnsRow} (loaded : Loaded sync world)
    (among : ∀ row ∈ rows, row ∈ sync.server.rows)
    (fits : ∀ row ∈ rows, RowFits sync.kind world sync.server.id sync.server.host true row) :
    Safe sync.server.id world (sync.dropUnwanted world force rows).2 := by
  induction rows generalizing world force with
  | nil => exact Safe.refl loaded.grounded
  | cons row rows inductionHypothesis =>
    have safe := safe_removeRow loaded (fits row mem_cons_self)
      (loaded.rows row (among row mem_cons_self))
    unfold Sync.dropUnwanted
    split
    case h_1 failure next isNext =>
      rw [isNext] at safe
      exact safe
    case h_2 next isNext =>
      rw [isNext] at safe
      refine safe.trans (inductionHypothesis (loaded.next safe)
        (fun other otherIn => among other (mem_cons_of_mem _ otherIn)) fun other otherIn => ?_)
      exact safe.1.rowFits (fits other (mem_cons_of_mem _ otherIn))

/-- One wanted record, where the row at another name fits. -/
theorem safe_one {down : Option String} (loaded : Loaded sync world)
    (fits : ∀ row ∈ sync.server.rows, row.kind = wanted.kind →
      movedAway sync.kind row wanted = true →
        RowFits sync.kind world sync.server.id sync.server.host false row) :
    Safe sync.server.id world (sync.one world wanted force down).2 := by
  have backed (world : World) (loaded : Loaded sync world) (old : DnsRow)
      (isOld : (sync.server.rows.find? fun row => row.kind == wanted.kind) = some old) :
      ∀ id, old.recordId = some id → world.Backed sync.server.id id :=
    loaded.rows old (mem_of_find?_eq_some isOld)
  unfold Sync.one
  dsimp only
  split
  · exact safe_fail loaded.grounded
  split
  · exact safe_share loaded.grounded fun old isOld => backed world loaded old isOld
  case h_2 old isOld =>
    obtain ⟨isOld, moved⟩ := filter_eq_some_iff.mp isOld
    have kindOf := find?_some isOld
    have safe := @safe_removeRecord sync.kind world sync.server.id sync.server.host false old
      sync.fates loaded.grounded
      (fits old (mem_of_find?_eq_some isOld) (beq_iff_eq.mp kindOf) moved)
      (backed world loaded old isOld) (by rintro - ⟨⟩)
    rw [beq_iff_eq.mp kindOf] at safe
    split
    case h_1 failure next isNext =>
      rw [isNext] at safe
      exact safe.trans (safe_fail safe.2)
    case h_2 next isNext =>
      rw [isNext] at safe
      exact safe.trans (safe_share safe.2 fun other isOther =>
        backed next (loaded.next safe) other isOther)

theorem safe_writeAll {down : Option String} {records : List WantedRecord}
    (loaded : Loaded sync world)
    (fits : ∀ record ∈ records, ∀ row ∈ sync.server.rows, row.kind = record.kind →
      movedAway sync.kind row record = true →
        RowFits sync.kind world sync.server.id sync.server.host false row) :
    Safe sync.server.id world (sync.writeAll force world down records).2 := by
  induction records generalizing world down with
  | nil => exact Safe.refl loaded.grounded
  | cons record records inductionHypothesis =>
    have safe := @safe_one world sync record force down loaded (fits record mem_cons_self)
    unfold Sync.writeAll
    refine safe.trans (inductionHypothesis (loaded.next safe) ?_)
    intro other otherIn row rowIn sameKind moved
    exact safe.1.rowFits (fits other (mem_cons_of_mem _ otherIn) row rowIn sameKind moved)

/-! ### Runs -/

variable {zone : String} {fates : Fates} {now : Nat} {resend : Bool}

theorem safe_syncLoaded {loadedServer : Server} {node : Node} (grounded : Grounded world)
    (backed : RowsBacked world loadedServer.id loadedServer.rows)
    (fits : SyncFits kind zone world loadedServer node) :
    Safe loadedServer.id world
      (syncLoaded kind zone spell world loadedServer node fates now resend).2 := by
  unfold syncLoaded
  split
  · exact safe_withRows grounded fun _ _ _ none => absurd none not_mem_nil
  case isFalse covered =>
  have covered : coveredBy kind zone loadedServer.host = true := by
    simpa only [Bool.not_eq_true', Bool.not_eq_false] using covered
  split
  · exact safe_withRows grounded fun _ backed => rowsBacked_map (fun _ => rfl) backed
  case h_2 wanted isWanted =>
  obtain ⟨unwanted, moved⟩ := fits covered wanted isWanted
  dsimp only
  generalize isSync : (⟨kind, spell, loadedServer, node,
    sharingBase kind world loadedServer.id loadedServer.host, fates, now⟩ : Sync) = sync
  have loaded : Loaded sync world := by
    rw [← isSync]
    exact ⟨grounded, backed, fun isDuck => by dsimp only at isDuck ⊢; rw [isDuck]⟩
  have sameKind : sync.kind = kind := by rw [← isSync]
  have sameServer : sync.server = loadedServer := by rw [← isSync]
  rw [← sameServer, ← sameKind] at unwanted moved
  rw [← sameServer]
  have dropped : Safe sync.server.id world (sync.dropUnwanted world (resend && !kind.reads)
      (unwantedRows sync.server.rows wanted)).2 :=
    safe_dropUnwanted loaded (fun row rowIn => mem_of_mem_filter rowIn) unwanted
  split
  case h_1 failure next isNext =>
    rw [isNext] at dropped
    exact dropped
  case h_2 force next isNext =>
    rw [isNext] at dropped
    refine dropped.trans (safe_writeAll (loaded.next dropped) ?_)
    intro record recordIn row rowIn same away
    exact dropped.1.rowFits (moved record recordIn row rowIn same away)

theorem safe_forgetRows {rows : List DnsRow} {cleared : Bool} (loaded : Loaded sync world)
    (among : ∀ row ∈ rows, row ∈ sync.server.rows)
    (fits : ∀ row ∈ rows, RowFits sync.kind world sync.server.id sync.server.host true row) :
    Safe sync.server.id world (sync.forgetRows world cleared rows) := by
  induction rows generalizing world cleared with
  | nil =>
    cases cleared with
    | _ => exact Safe.refl loaded.grounded
  | cons row rows inductionHypothesis =>
    have rest (next : World) (safe : Safe sync.server.id world next) (cleared : Bool) :
        Safe sync.server.id world (sync.forgetRows next cleared rows) := by
      refine safe.trans (inductionHypothesis (loaded.next safe)
        (fun other otherIn => among other (mem_cons_of_mem _ otherIn)) fun other otherIn => ?_)
      exact safe.1.rowFits (fits other (mem_cons_of_mem _ otherIn))
    cases cleared with
    | true =>
      exact rest _ (safe_withRows loaded.grounded fun _ backed => rowsBacked_filter backed) true
    | false =>
      exact rest _ (safe_removeRow loaded (fits row mem_cons_self)
        (loaded.rows row (among row mem_cons_self))) _

theorem server_of_find {id : ServerId} {found : Server}
    (isFound : (world.servers.find? fun server => server.id == id) = some found) :
    found ∈ world.servers ∧ found.id = id := by
  have isId := find?_some isFound
  exact ⟨mem_of_find?_eq_some isFound, beq_iff_eq.mp isId⟩

theorem grounded_syncServerDns {id : ServerId} (grounded : Grounded world)
    (fits : Fits kind zone spell world (.sync id fates now resend)) :
    Grounded (syncServerDns kind zone spell world id fates now resend).2 := by
  unfold syncServerDns
  split
  · exact grounded
  case h_2 found isFound =>
  obtain ⟨foundIn, isId⟩ := server_of_find isFound
  split
  · exact grounded
  case h_2 node isNode =>
    exact (safe_syncLoaded grounded (grounded.rows found foundIn)
      (fits found foundIn isId node isNode)).2

theorem grounded_forgetServerDns {id : ServerId} {host : String} (grounded : Grounded world)
    (fits : Fits kind zone spell world (.forget id host fates now)) :
    Grounded (forgetServerDns kind zone spell world id host fates now) := by
  unfold forgetServerDns
  split
  · exact grounded
  case h_2 found isFound =>
  obtain ⟨foundIn, rfl⟩ := server_of_find isFound
  split
  · exact grounded
  · dsimp only
    generalize isSync : (⟨kind, spell, { found with host := host }, ⟨"", "", {}⟩,
      sharingBase kind world found.id host, fates, now⟩ : Sync) = sync
    have loaded : Loaded sync world := by
      rw [← isSync]
      exact ⟨grounded, grounded.rows found foundIn,
        fun isDuck => by dsimp only at isDuck ⊢; rw [isDuck]⟩
    refine (safe_forgetRows loaded (fun row rowIn => ?_) fun row rowIn => ?_).2
    · rw [← isSync]
      exact rowIn
    · rw [← isSync]
      exact fits found foundIn rfl row rowIn

theorem grounded_backoff {until_ : Nat} (grounded : Grounded world) :
    Grounded { world with backoffUntil := until_ } :=
  ⟨grounded.unique, grounded.fresh, grounded.rows, grounded.own⟩

theorem grounded_reconcileFrom {fates : ServerId → Fates} {pairs : List (Server × Node)}
    (grounded : Grounded world)
    (backed : ∀ pair ∈ pairs, RowsBacked world pair.1.id pair.1.rows)
    (fits : PassFits kind zone spell fates now world pairs) :
    Grounded (reconcileFrom kind zone spell fates now world pairs) := by
  induction pairs generalizing world with
  | nil => exact grounded
  | cons pair pairs inductionHypothesis =>
    obtain ⟨first, node⟩ := pair
    obtain ⟨backedFirst, backed⟩ := forall_mem_cons.mp backed
    unfold reconcileFrom
    unfold PassFits at fits
    split
    case isTrue idle =>
      rw [if_pos idle] at fits
      exact inductionHypothesis grounded backed fits
    case isFalse needed =>
      rw [if_neg needed] at fits
      have safe := @safe_syncLoaded kind world spell zone (fates first.id) now false first node
        grounded backedFirst fits.1
      generalize syncLoaded kind zone spell world first node (fates first.id) now false = run
        at safe fits ⊢
      obtain ⟨result, next⟩ := run
      obtain ⟨runs, grounded⟩ := safe
      obtain ⟨-, fits⟩ := fits
      dsimp only at runs grounded fits ⊢
      split
      case isTrue => exact grounded_backoff grounded
      case isFalse reachable =>
        exact inductionHypothesis grounded (fun pair pairIn => runs.rowsBacked (backed pair pairIn))
          (fits (Bool.eq_false_of_not_eq_true reachable))

/-! ### Everything that happens -/

/-- Servers that are changed and keep their rows. -/
theorem grounded_of_servers {servers : List Server} (grounded : Grounded world)
    (same : ∀ server ∈ servers, ∃ old ∈ world.servers,
      old.id = server.id ∧ old.rows = server.rows) :
    Grounded { world with servers } where
  unique := grounded.unique
  fresh := grounded.fresh
  rows := by
    intro server serverIn
    obtain ⟨old, oldIn, sameId, sameRows⟩ := same server serverIn
    rw [← sameId, ← sameRows]
    exact grounded.rows old oldIn
  own := grounded.own

/-- Records that are changed by somebody else. -/
theorem grounded_of_records (grounded : Grounded world) (servers : after.servers = world.servers)
    (log : after.log = world.log) (unique : (after.records.map (·.id)).Nodup)
    (fresh : ∀ record ∈ after.records, record.id < after.next)
    (backed : ∀ server id, world.Backed server id → after.Backed server id) : Grounded after where
  unique := unique
  fresh := fresh
  rows := by
    rw [servers]
    exact fun server serverIn row rowIn id isId =>
      backed server.id id (grounded.rows server serverIn row rowIn id isId)
  own := by
    rw [log]
    exact grounded.own

theorem grounded_withServer {id : ServerId} {change : Server → Server} (grounded : Grounded world)
    (same : ∀ server, (change server).id = server.id ∧ (change server).rows = server.rows) :
    Grounded (withServer world id change) := by
  refine grounded_of_servers grounded fun server serverIn => ?_
  obtain ⟨old, oldIn, rfl⟩ := List.mem_map.mp serverIn
  refine ⟨old, oldIn, ?_⟩
  split
  · exact ⟨(same old).1.symm, (same old).2.symm⟩
  · exact ⟨rfl, rfl⟩

theorem grounded_place {type name content comment : String} (grounded : Grounded world) :
    Grounded { world with
      records := world.records ++ [⟨world.next, type, name, content, comment⟩]
      next := world.next + 1 } := by
  have isNew {record : DnsRecord}
      (recordIn : record ∈ world.records ++ [⟨world.next, type, name, content, comment⟩]) :
      record ∈ world.records ∨ record.id = world.next := by
    refine (mem_append.mp recordIn).imp id fun here => ?_
    rw [mem_singleton.mp here]
  refine grounded_of_records grounded rfl rfl ?_ (fun record recordIn => ?_)
    fun server number backed => ⟨Nat.lt_succ_of_lt backed.1, fun record recordIn isRecord => ?_⟩
  · rw [map_append, map_singleton]
    refine Nodup.append grounded.unique (nodup_singleton _) ?_
    intro number numberIn isNext
    obtain ⟨record, recordIn, rfl⟩ := List.mem_map.mp numberIn
    exact absurd (grounded.fresh record recordIn)
      (by rw [mem_singleton.mp isNext]; exact lt_irrefl _)
  · obtain stayed | isNext := isNew recordIn
    · exact Nat.lt_succ_of_lt (grounded.fresh record stayed)
    · rw [isNext]
      exact Nat.lt_succ_self _
  · obtain stayed | isNext := isNew recordIn
    · exact backed.2 record stayed isRecord
    · exact absurd backed.1 (by rw [← isRecord, isNext]; exact lt_irrefl _)

theorem grounded_take {id : Nat} (grounded : Grounded world) :
    Grounded { world with records := world.records.filter fun record => record.id != id } :=
  grounded_of_records grounded rfl rfl (grounded.unique.sublist (filter_sublist.map _))
    (fun record recordIn => grounded.fresh record (mem_of_mem_filter recordIn))
    fun _ _ backed => ⟨backed.1, fun record recordIn isRecord =>
      backed.2 record (mem_of_mem_filter recordIn) isRecord⟩

theorem grounded_edit {id : Nat} {type name content comment : String} (grounded : Grounded world) :
    Grounded { world with
      records := world.records.map fun record =>
        if record.id = id then ⟨id, type, name, content, comment⟩ else record
      edited := id :: world.edited } := by
  have isOld {record : DnsRecord} (recordIn : record ∈ world.records.map fun record =>
      if record.id = id then ⟨id, type, name, content, comment⟩ else record) :
      ∃ old ∈ world.records, old.id = record.id ∧ (record = old ∨ record.id = id) := by
    obtain ⟨old, oldIn, rfl⟩ := List.mem_map.mp recordIn
    refine ⟨old, oldIn, ?_⟩
    split
    case isTrue same => exact ⟨same, Or.inr rfl⟩
    case isFalse => exact ⟨rfl, Or.inl rfl⟩
  refine grounded_of_records grounded rfl rfl ?_ (fun record recordIn => ?_)
    fun server number backed => ⟨backed.1, fun record recordIn isRecord => ?_⟩
  · have sameIds : (world.records.map fun record =>
        if record.id = id then ⟨id, type, name, content, comment⟩ else record).map (·.id) =
        world.records.map (·.id) := by
      rw [List.map_map]
      refine map_congr_left fun record _ => ?_
      rw [Function.comp_apply]
      split
      case isTrue same => exact same.symm
      case isFalse => rfl
    rw [sameIds]
    exact grounded.unique
  · obtain ⟨old, oldIn, sameId, -⟩ := isOld recordIn
    rw [← sameId]
    exact grounded.fresh old oldIn
  · obtain ⟨old, oldIn, sameId, rfl | isEdited⟩ := isOld recordIn
    · exact (backed.2 record oldIn isRecord).imp (fun own => own) (mem_cons_of_mem _)
    · rw [← isRecord, isEdited]
      exact Or.inr mem_cons_self

/-- What every step leaves as it should be that lets go of no row that does not fit. -/
theorem grounded_step (event : Event) (next : World) (grounded : Grounded world)
    (fits : Fits kind zone spell world event)
    (taken : step kind zone spell world event = some next) : Grounded next := by
  cases event with
  | sync id fates now resend =>
    obtain rfl := some.inj taken
    exact grounded_syncServerDns grounded fits
  | forget id host fates now =>
    obtain rfl := some.inj taken
    exact grounded_forgetServerDns grounded fits
  | reconcile fates now =>
    obtain rfl := some.inj taken
    unfold reconcileDns
    split
    · exact grounded
    · refine grounded_reconcileFrom grounded (fun pair pairIn => ?_) fits
      obtain ⟨server, serverIn, isPair⟩ := mem_filterMap.mp pairIn
      obtain ⟨node, -, rfl⟩ := map_eq_some_iff.mp isPair
      exact grounded.rows server (mem_of_mem_filter serverIn)
  | changeHost id host =>
    unfold step at taken
    dsimp only at taken
    split at taken
    · cases taken
    · obtain rfl := some.inj taken
      exact grounded_withServer grounded fun _ => ⟨rfl, rfl⟩
  | move id nodeId port =>
    obtain rfl := some.inj taken
    exact grounded_withServer grounded fun _ => ⟨rfl, rfl⟩
  | turn id state =>
    obtain rfl := some.inj taken
    exact grounded_withServer grounded fun _ => ⟨rfl, rfl⟩
  | readdress nodeId facts =>
    obtain rfl := some.inj taken
    exact ⟨grounded.unique, grounded.fresh, grounded.rows, grounded.own⟩
  | create server =>
    unfold step at taken
    dsimp only at taken
    split at taken
    · cases taken
    · obtain rfl := some.inj taken
      refine ⟨grounded.unique, grounded.fresh, fun other otherIn => ?_, grounded.own⟩
      obtain old | new := mem_append.mp otherIn
      · exact grounded.rows other old
      · rw [mem_singleton.mp new]
        exact fun _ none => absurd none not_mem_nil
  | delete id =>
    obtain rfl := some.inj taken
    exact grounded_of_servers grounded fun server serverIn =>
      ⟨server, mem_of_mem_filter serverIn, rfl, rfl⟩
  | place type name content comment =>
    obtain rfl := some.inj taken
    exact grounded_place grounded
  | take id =>
    obtain rfl := some.inj taken
    exact grounded_take grounded
  | edit id type name content comment =>
    obtain rfl := some.inj taken
    exact grounded_edit grounded

/-- In every run that lets go of no row that does not fit, what is overwritten, removed or cleared
is the server's own. -/
theorem owned_along (kind : DnsKind) (zone : String) (spell : String → Option String)
    (nodes : List Node) (events : List Event)
    (fits : Systems.Meets (step kind zone spell) (Fits kind zone spell) { nodes } events) :
    Systems.Along (step kind zone spell) (fun world => ∀ touch ∈ world.log, touch.Own) { nodes }
      events := by
  have start : Grounded { nodes } :=
    ⟨nodup_nil, fun _ none => absurd none not_mem_nil,
      fun _ none => absurd none not_mem_nil, fun _ none => absurd none not_mem_nil⟩
  have along := Systems.along_of_meets (fun world event next grounded fits taken =>
    grounded_step event next grounded fits taken) start fits
  exact along.mono fun world grounded => grounded.own

/-! ### A server at home -/

def homeNode : Node where
  id := "home"
  name := "Home"
  facts := { publicAddress := some "203.0.113.7" }

def homeServer : Server where
  id := "s1"
  name := "Home server"
  host := "play.example.com"
  port := 25565
  nodeId := "home"

/-- Calls of which none fails. -/
def answered : Fates := fun _ _ => {}

/-- Somebody has a record of their own in the zone and changes it while the server has its. -/
def homeEvents : List Event :=
  [.place "A" "map.example.com" "198.51.100.1" "", .create homeServer,
    .sync "s1" answered 0 false, .edit 0 "A" "map.example.com" "198.51.100.2" "",
    .forget "s1" "play.example.com" answered 1]

/-- The panel when the server's records are asked for. -/
def homeWorld : World where
  nodes := [homeNode]
  servers := [homeServer]
  records := [⟨0, "A", "map.example.com", "198.51.100.1", ""⟩]
  next := 1

theorem owned_along_home :
    Systems.Along (step .cloudflare "example.com" fun _ => none)
        (fun world => ∀ touch ∈ world.log, touch.Own) { nodes := [homeNode] } homeEvents ∧
      (Systems.run (step .cloudflare "example.com" fun _ => none) { nodes := [homeNode] }
        homeEvents).map (fun world => (world.records, world.log.length)) =
        some ([⟨0, "A", "map.example.com", "198.51.100.2", ""⟩], 1) := by
  refine ⟨owned_along .cloudflare "example.com" (fun _ => none) [homeNode] homeEvents
    ⟨trivial, fun placed isPlaced => ⟨trivial, fun created isCreated => ⟨?_, fun synced isSynced =>
      ⟨trivial, fun edited isEdited => ⟨?_, fun _ _ => trivial⟩⟩⟩⟩⟩, by decide +kernel⟩
  · obtain rfl := some.inj isPlaced
    obtain rfl := some.inj isCreated
    intro server serverIn _ node _ _ wanted _
    obtain rfl := mem_singleton.mp serverIn
    exact ⟨fun _ none => absurd none not_mem_nil,
      fun _ _ _ none => absurd none not_mem_nil⟩
  · obtain rfl := some.inj isPlaced
    obtain rfl := some.inj isCreated
    obtain rfl := some.inj isEdited
    have state : (step .cloudflare "example.com" (fun _ => none) homeWorld
        (.sync "s1" answered 0 false)).map
          (fun world => (world.servers.flatMap Server.rows, world.edited)) =
        some ([⟨.a, "play.example.com", some 1, some "203.0.113.7", 0, none⟩], []) := by
      decide +kernel
    have next : step .cloudflare "example.com" (fun _ => none) homeWorld
        (.sync "s1" answered 0 false) = some synced := isSynced
    rw [next] at state
    obtain ⟨rows, edits⟩ := Prod.mk.inj (some.inj state)
    intro server serverIn _ row rowIn
    have isRow := rows ▸ mem_flatMap.mpr ⟨server, serverIn, rowIn⟩
    rw [mem_singleton.mp isRow]
    intro record _ _ among
    have among : 1 ∈ 0 :: synced.edited := among
    rw [edits] at among
    exact absurd among (by decide)

/-- Somebody's own record is at the name: it is refused, and goes when the server does. -/
def strangerEvents : List Event :=
  [.place "A" "play.example.com" "198.51.100.1" "", .create homeServer,
    .sync "s1" answered 0 false, .forget "s1" "play.example.com" answered 1]

theorem stranger_removed :
    ¬ ∀ kind zone spell nodes events,
      Systems.Along (step kind zone spell) (fun world => ∀ touch ∈ world.log, touch.Own) { nodes }
        events := by
  intro claimed
  obtain ⟨last, ends, log⟩ := map_eq_some_iff.mp (by decide +kernel :
    (Systems.run (step .cloudflare "example.com" fun _ => none) { nodes := [homeNode] }
      strangerEvents).map World.log =
      some [.removed "s1" ⟨0, "A", "play.example.com", "198.51.100.1", ""⟩ false])
  have own := Systems.along_last (claimed .cloudflare "example.com" (fun _ => none) [homeNode]
    strangerEvents) ends
  rw [log] at own
  obtain marked | adopted := own _ (mem_singleton_self _)
  · exact absurd marked (by unfold Marks; decide)
  · cases adopted

end Geeboard.Dns
