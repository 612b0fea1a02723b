/-
This file is about the load order of a server's mods, which decides who wins a conflict.

A mod is added at the position behind the greatest one, and that one was read in a
statement of its own; a collection is added the same way. A reorder is accepted when it
names as many mods as there are and none but those, and then writes their positions in
one transaction. Each database statement or transaction is one step here, and the
operations of any number of callers are taken in any order.
-/

import Geeboard.Systems.Steps
import Mathlib.Data.List.Induction
import Mathlib.Data.List.Perm.Subperm
import Mathlib.Data.List.Sort

namespace Geeboard.Panel

open List Option

variable {Id : Type} [DecidableEq Id]

/-! ### The rows -/

structure ServerMod (Id : Type) where
  id : Nat
  workshopId : Id
  position : Int
  collectionId : Option Id
  deriving DecidableEq

/-- The mods of a server: none is there twice. -/
structure ModList (Id : Type) where
  rows : List (ServerMod Id)
  unique : (rows.map ServerMod.workshopId).Nodup
  deriving DecidableEq

namespace ModList

def ids (mods : ModList Id) : List Id := mods.rows.map ServerMod.workshopId

/-- The greatest position, or nought. -/
def last (mods : ModList Id) : Int := ((mods.rows.map ServerMod.position).max?).getD 0

/-- The mods as they are listed: by position. -/
def listed (mods : ModList Id) : List Id :=
  (mods.rows.mergeSort fun first second => first.position ≤ second.position).map
    ServerMod.workshopId

def Distinct (mods : ModList Id) : Prop := (mods.rows.map ServerMod.position).Nodup

instance (mods : ModList Id) : Decidable mods.Distinct := by
  unfold Distinct
  infer_instance

/-- What of the new rows joins: those whose mod is not there yet. -/
def joining (present : List Id) : List (ServerMod Id) → List (ServerMod Id)
  | [] => []
  | new :: news =>
    if new.workshopId ∈ present then joining present news
    else new :: joining (new.workshopId :: present) news

theorem nodup_joining (present : List Id) (news : List (ServerMod Id)) (unique : present.Nodup) :
    (present ++ (joining present news).map ServerMod.workshopId).Nodup := by
  induction news generalizing present with
  | nil =>
    rw [joining, map_nil, append_nil]
    exact unique
  | cons new news inductionHypothesis =>
    rw [joining]
    split
    · exact inductionHypothesis present unique
    · next absent =>
      have rest := inductionHypothesis (new.workshopId :: present)
        (nodup_cons.mpr ⟨absent, unique⟩)
      rw [map_cons]
      exact (perm_middle.nodup_iff).mpr rest

theorem joining_sublist (present : List Id) (news : List (ServerMod Id)) :
    (joining present news).Sublist news := by
  induction news generalizing present with
  | nil => exact Sublist.refl _
  | cons new news inductionHypothesis =>
    rw [joining]
    split
    · exact (inductionHypothesis present).cons new
    · exact (inductionHypothesis _).cons_cons new

/-- Rows are created one after another, and one whose mod is there is passed over. -/
def createMany (mods : ModList Id) (news : List (ServerMod Id)) : ModList Id where
  rows := mods.rows ++ joining mods.ids news
  unique := by
    rw [map_append]
    exact nodup_joining mods.ids news mods.unique

/-- One row is created, unless its mod is there. -/
def create (mods : ModList Id) (new : ServerMod Id) : Option (ModList Id) :=
  if new.workshopId ∈ mods.ids then none else some (mods.createMany [new])

def adopt (mods : ModList Id) (collectionId : Id) (adopted : List Id) : ModList Id where
  rows := mods.rows.map fun mod =>
    if mod.workshopId ∈ adopted then { mod with collectionId := some collectionId } else mod
  unique := by
    rw [List.map_map]
    refine (congrArg List.Nodup (map_congr_left fun mod _ => ?_)).mp mods.unique
    show mod.workshopId = ServerMod.workshopId (if _ then _ else _)
    split <;> rfl

def delete (mods : ModList Id) (goes : ServerMod Id → Bool) : ModList Id where
  rows := mods.rows.filter fun mod => !goes mod
  unique := mods.unique.sublist (filter_sublist.map _)

/-- Mods put to the positions given for them. -/
def placed (mods : ModList Id) (place : Id → Option Int) : ModList Id where
  rows := mods.rows.map fun mod => { mod with position := (place mod.workshopId).getD mod.position }
  unique := by
    rw [List.map_map]
    exact mods.unique

/-- A row's position is written, if the row is there. -/
def update (mods : ModList Id) (workshopId : Id) (position : Int) : Option (ModList Id) :=
  if workshopId ∈ mods.ids then
    some (mods.placed fun id => if id = workshopId then some position else none)
  else none

/-- The positions are written one after another; a row that is not there takes all of it back. -/
def reordered (mods : ModList Id) (workshopIds : List Id) : Option (ModList Id) :=
  workshopIds.zipIdx.foldlM
    (fun mods entry => mods.update entry.1 ((entry.2 : Int) + 1)) mods

end ModList

/-! ### The operations -/

/-- What is asked for. What Steam answers for a collection comes with the call. -/
inductive ModCall (Id : Type) where
  | add (workshopId : Id)
  | addCollection (collectionId : Id) (items : List Id)
  | remove (workshopId : Id)
  | removeCollection (collectionId : Id)
  | reorder (workshopIds : List Id)
  deriving DecidableEq

/-- An operation between two of its statements, with what it has read. -/
inductive ModWork (Id : Type) where
  | adding (workshopId : Id)
  | addingAt (workshopId : Id) (last : Int)
  | adopting (collectionId : Id) (adopted : List Id)
  | addingAll (collectionId : Id) (fresh adopted : List Id)
  | addingAllAt (collectionId : Id) (fresh adopted : List Id) (last : Int)
  | removing (row : Nat)
  | removingCollection (collectionId : Id)
  | reordering (seen : ModList Id) (workshopIds : List Id)
      (counted : workshopIds.length = seen.rows.length)

/-- The rows, the operations under way, and the order that was just saved over an unchanged
list. -/
structure ModState (Client Id : Type) where
  mods : ModList Id
  nextRow : Nat
  work : Client → Option (ModWork Id) := fun _ => none
  saved : Option (List Id) := none

inductive ModEvent (Client Id : Type) where
  | call (client : Client) (call : ModCall Id)
  | next (client : Client)
  | fail (client : Client)

variable {Client : Type} [DecidableEq Client]

/-- The caller's operation goes on as given, or is over. -/
def ModState.goes (state : ModState Client Id) (client : Client)
    (work : Option (ModWork Id)) : ModState Client Id :=
  { state with work := Function.update state.work client work, saved := none }

/-- The operation is over and has left these rows. -/
def ModState.leaves (state : ModState Client Id) (client : Client) (mods : ModList Id) :
    ModState Client Id :=
  { state.goes client none with mods }

/-- The row of a mod added on its own: behind the last. -/
def newRow (nextRow : Nat) (workshopId : Id) (last : Int) : ServerMod Id :=
  { id := nextRow, workshopId, position := last + 1, collectionId := none }

/-- The rows of a collection's new mods: behind each other, from the position behind the last. -/
def collectionRows (nextRow : Nat) (collectionId : Id) (fresh : List Id) (last : Int) :
    List (ServerMod Id) :=
  fresh.zipIdx.map fun entry =>
    { id := nextRow + entry.2, workshopId := entry.1, position := last + 1 + entry.2,
      collectionId := some collectionId }

/-- An operation's first statement. -/
def ModState.begin_ (state : ModState Client Id) (client : Client) :
    ModCall Id → ModState Client Id
  | .add workshopId =>
    state.goes client (if workshopId ∈ state.mods.ids then none else some (.adding workshopId))
  | .addCollection collectionId items =>
    let fresh := items.filter fun item => item ∉ state.mods.ids
    let adopted := items.filter fun item =>
      state.mods.rows.any fun mod => mod.workshopId = item ∧ mod.collectionId = none
    state.goes client
      (if fresh = [] then
        if adopted = [] then none else some (.adopting collectionId adopted)
      else some (.addingAll collectionId fresh adopted))
  | .remove workshopId =>
    state.goes client
      ((state.mods.rows.find? fun mod => mod.workshopId = workshopId).map fun mod =>
        .removing mod.id)
  | .removeCollection collectionId =>
    state.goes client
      (if state.mods.rows.any fun mod => mod.collectionId = some collectionId then
        some (.removingCollection collectionId)
      else none)
  | .reorder workshopIds =>
    state.goes client
      (if counted : workshopIds.length = state.mods.rows.length then
        if workshopIds.any fun id => id ∉ state.mods.ids then none
        else some (.reordering state.mods workshopIds counted)
      else none)

/-- An operation's next statement. -/
def ModState.resume (state : ModState Client Id) (client : Client) :
    ModWork Id → ModState Client Id
  | .adding workshopId => state.goes client (some (.addingAt workshopId state.mods.last))
  | .addingAt workshopId last =>
    match state.mods.create (newRow state.nextRow workshopId last) with
    | none => state.goes client none
    | some mods => { state.leaves client mods with nextRow := state.nextRow + 1 }
  | .adopting collectionId adopted =>
    state.leaves client (state.mods.adopt collectionId adopted)
  | .addingAll collectionId fresh adopted =>
    state.goes client (some (.addingAllAt collectionId fresh adopted state.mods.last))
  | .addingAllAt collectionId fresh adopted last =>
    { state.leaves client
        ((state.mods.createMany (collectionRows state.nextRow collectionId fresh last)).adopt
          collectionId adopted) with
      nextRow := state.nextRow + fresh.length }
  | .removing row => state.leaves client (state.mods.delete fun mod => mod.id = row)
  | .removingCollection collectionId =>
    state.leaves client (state.mods.delete fun mod => mod.collectionId = some collectionId)
  | .reordering seen workshopIds _ =>
    match state.mods.reordered workshopIds with
    | none => state.goes client none
    | some mods =>
      { state.leaves client mods with
        saved := if state.mods = seen then some workshopIds else none }

/-- One statement or transaction of one operation, or its end without another. -/
def modStep (state : ModState Client Id) : ModEvent Client Id → Option (ModState Client Id)
  | .call client call =>
    match state.work client with
    | none => some (state.begin_ client call)
    | some _ => none
  | .next client => (state.work client).map (state.resume client)
  | .fail client => (state.work client).map fun _ => state.goes client none

/-! ### What a reorder writes -/

/-- The position a list gives a mod: that of the last place it is named at, or nought. -/
def placeOf (workshopIds : List Id) (id : Id) : Nat :=
  workshopIds.length - workshopIds.reverse.idxOf id

theorem placeOf_append (workshopIds : List Id) (last id : Id) :
    placeOf (workshopIds ++ [last]) id =
      if last = id then workshopIds.length + 1 else placeOf workshopIds id := by
  unfold placeOf
  rw [reverse_append, reverse_singleton, singleton_append, idxOf_cons,
    length_append, length_singleton]
  by_cases same : last = id
  · rw [if_pos same, beq_iff_eq.mpr same]
    rfl
  · rw [if_neg same, beq_eq_false_iff_ne.mpr same, cond_false, Nat.add_sub_add_right]

theorem placeOf_le (workshopIds : List Id) (id : Id) :
    placeOf workshopIds id ≤ workshopIds.length :=
  Nat.sub_le _ _

/-- Two mods are given the same position only if they are one. -/
theorem placeOf_inj {workshopIds : List Id} {first second : Id} (member : first ∈ workshopIds)
    (same : placeOf workshopIds first = placeOf workshopIds second) : first = second := by
  have far : workshopIds.reverse.idxOf first < workshopIds.length := by
    rw [← length_reverse]
    exact idxOf_lt_length_of_mem (mem_reverse.mpr member)
  have equal : workshopIds.reverse.idxOf first = workshopIds.reverse.idxOf second := by
    unfold placeOf at same
    omega
  exact (idxOf_inj (mem_reverse.mpr member)).mp equal

/-- In a list that names none twice the positions go up. -/
theorem pairwise_placeOf {workshopIds : List Id} (once : workshopIds.Nodup) :
    workshopIds.Pairwise fun first second =>
      placeOf workshopIds first ≤ placeOf workshopIds second := by
  induction workshopIds using List.reverseRecOn with
  | nil => exact List.Pairwise.nil
  | append_singleton front last inductionHypothesis =>
    obtain ⟨before, -, apart⟩ := nodup_append'.mp once
    have other : ∀ id ∈ front, last ≠ id := fun id member same =>
      apart member (mem_singleton.mpr same.symm)
    refine pairwise_append.mpr ⟨?_, pairwise_singleton _ _, ?_⟩
    · refine (inductionHypothesis before).imp_of_mem fun firstIn secondIn up => ?_
      rw [placeOf_append, placeOf_append, if_neg (other _ firstIn), if_neg (other _ secondIn)]
      exact up
    · intro id member last' same
      obtain rfl := mem_singleton.mp same
      rw [placeOf_append, placeOf_append, if_neg (other id member), if_pos rfl]
      exact Nat.le_succ_of_le (placeOf_le front id)

namespace ModList

omit [DecidableEq Id] in
@[simp] theorem ids_placed (mods : ModList Id) (place : Id → Option Int) :
    (mods.placed place).ids = mods.ids := by
  unfold ids placed
  rw [List.map_map]
  rfl

/-- What a list gives a mod to write: nothing when it does not name it. -/
def given (workshopIds : List Id) (id : Id) : Option Int :=
  if id ∈ workshopIds then some (placeOf workshopIds id : Int) else none

/-- A reorder that writes all its rows puts every mod where the list names it last. -/
theorem reordered_eq (mods : ModList Id) (workshopIds : List Id) :
    mods.reordered workshopIds =
      if ∀ id ∈ workshopIds, id ∈ mods.ids then some (mods.placed (given workshopIds))
      else none := by
  induction workshopIds using List.reverseRecOn with
  | nil =>
    rw [if_pos fun id member => absurd member not_mem_nil]
    show some mods = some _
    congr 1
    obtain ⟨rows, unique⟩ := mods
    unfold placed
    congr 1
    exact (List.map_id rows).symm
  | append_singleton front last inductionHypothesis =>
    have split : mods.reordered (front ++ [last]) =
        (mods.reordered front).bind fun mods => mods.update last ((front.length : Int) + 1) := by
      unfold reordered
      rw [zipIdx_append, foldlM_append, Nat.zero_add]
      congr 1
      funext mods
      exact bind_fun_some _
    rw [split, inductionHypothesis]
    by_cases known : ∀ id ∈ front ++ [last], id ∈ mods.ids
    · have before : ∀ id ∈ front, id ∈ mods.ids :=
        fun id member => known id (mem_append_left _ member)
      rw [if_pos before, if_pos known, bind_some, update, ids_placed,
        if_pos (known last (mem_append_right _ mem_cons_self))]
      congr 1
      unfold placed
      congr 1
      rw [List.map_map]
      refine map_congr_left fun mod _ => ?_
      show ({ mod with position := _ } : ServerMod Id) = { mod with position := _ }
      congr 1
      show (if mod.workshopId = last then some _ else none : Option Int).getD
        ((given front mod.workshopId).getD mod.position) = (given _ _).getD _
      unfold given
      rw [placeOf_append]
      by_cases same : mod.workshopId = last
      · rw [if_pos same, if_pos same.symm,
          if_pos (mem_append_right _ (mem_singleton.mpr same))]
        rfl
      · have among : mod.workshopId ∈ front ++ [last] ↔ mod.workshopId ∈ front := by
          rw [mem_append, mem_singleton, or_iff_left same]
        rw [if_neg same, if_neg (Ne.symm same), getD_none]
        simp only [among]
    · rw [if_neg known]
      by_cases before : ∀ id ∈ front, id ∈ mods.ids
      · have absent : last ∉ mods.ids := by
          intro member
          refine known fun id among => ?_
          obtain front | rfl := (mem_append.mp among).imp_right mem_singleton.mp
          · exact before id front
          · exact member
        rw [if_pos before, bind_some, update, ids_placed, if_neg absent]
      · rw [if_neg before, bind_none]

/-! ### Distinct positions -/

omit [DecidableEq Id] in
/-- The rows are told apart by their mods. -/
theorem row_inj (mods : ModList Id) {first second : ServerMod Id} (firstIn : first ∈ mods.rows)
    (secondIn : second ∈ mods.rows) (same : first.workshopId = second.workshopId) :
    first = second :=
  inj_on_of_nodup_map mods.unique firstIn secondIn same

omit [DecidableEq Id] in
theorem nodup_rows (mods : ModList Id) : mods.rows.Nodup := mods.unique.of_map

omit [DecidableEq Id] in
theorem distinct_delete {mods : ModList Id} (distinct : mods.Distinct)
    (goes : ServerMod Id → Bool) : (mods.delete goes).Distinct :=
  distinct.sublist (filter_sublist.map _)

theorem distinct_adopt (mods : ModList Id) (collectionId : Id) (adopted : List Id) :
    (mods.adopt collectionId adopted).Distinct ↔ mods.Distinct := by
  unfold Distinct adopt
  rw [List.map_map]
  refine iff_of_eq (congrArg List.Nodup (map_congr_left fun mod _ => ?_))
  show ServerMod.position (if _ then _ else _) = mod.position
  split <;> rfl

/-- Rows that join have positions of their own exactly if no mod stands on one of them. -/
theorem distinct_createMany {mods : ModList Id} (distinct : mods.Distinct)
    {news : List (ServerMod Id)} (apart : (news.map ServerMod.position).Nodup) :
    (mods.createMany news).Distinct ↔
      ∀ new ∈ joining mods.ids news, ∀ mod ∈ mods.rows, mod.position ≠ new.position := by
  have among := apart.sublist ((joining_sublist mods.ids news).map ServerMod.position)
  unfold Distinct createMany
  rw [map_append, nodup_append']
  constructor
  · intro whole new newIn mod modIn same
    exact whole.2.2 (List.mem_map_of_mem modIn) (same ▸ List.mem_map_of_mem newIn)
  · intro free
    refine ⟨distinct, among, fun position old new => ?_⟩
    obtain ⟨mod, modIn, rfl⟩ := List.mem_map.mp old
    obtain ⟨row, rowIn, same⟩ := List.mem_map.mp new
    exact free row rowIn mod modIn same.symm

/-- After a reorder the positions are distinct exactly if no mod it does not name stands where
it puts one. -/
theorem distinct_placed {mods : ModList Id} (distinct : mods.Distinct) {workshopIds : List Id}
    (known : ∀ id ∈ workshopIds, id ∈ mods.ids) :
    (mods.placed (given workshopIds)).Distinct ↔
      ∀ mod ∈ mods.rows, mod.workshopId ∉ workshopIds →
        ∀ id ∈ workshopIds, mod.position ≠ (placeOf workshopIds id : Int) := by
  unfold Distinct placed
  rw [List.map_map, nodup_map_iff_inj_on mods.nodup_rows]
  constructor
  · intro apart mod modIn unnamed id named same
    obtain ⟨other, otherIn, rfl⟩ := List.mem_map.mp (known id named)
    have equal := apart mod modIn other otherIn (by
      show (given _ _).getD _ = (given _ _).getD _
      unfold given
      rw [if_neg unnamed, if_pos named]
      exact same)
    exact unnamed (equal ▸ named)
  · intro free first firstIn second secondIn same
    have same' : (given workshopIds first.workshopId).getD first.position =
        (given workshopIds second.workshopId).getD second.position := same
    unfold given at same'
    by_cases one : first.workshopId ∈ workshopIds
    · rw [if_pos one, getD_some] at same'
      by_cases two : second.workshopId ∈ workshopIds
      · rw [if_pos two, getD_some] at same'
        exact mods.row_inj firstIn secondIn (placeOf_inj one (Int.ofNat_inj.mp same'))
      · rw [if_neg two] at same'
        exact absurd same'.symm (free second secondIn two _ one)
    · rw [if_neg one] at same'
      by_cases two : second.workshopId ∈ workshopIds
      · rw [if_pos two] at same'
        exact absurd same' (free first firstIn one _ two)
      · rw [if_neg two] at same'
        exact inj_on_of_nodup_map distinct firstIn secondIn same'

/-! ### The order that was saved -/

omit [DecidableEq Id] in
/-- Each mod is listed once. -/
theorem listed_perm (mods : ModList Id) : mods.listed.Perm mods.ids :=
  (mergeSort_perm _ _).map _

/-- A reorder that names as many mods as there are, and each of them, saves the order it was
given exactly if it names none twice. -/
theorem listed_placed {mods : ModList Id} {workshopIds : List Id}
    (known : ∀ id ∈ workshopIds, id ∈ mods.ids)
    (counted : workshopIds.length = mods.rows.length) :
    (mods.placed (given workshopIds)).listed = workshopIds ↔ workshopIds.Nodup := by
  have perm := (mods.placed (given workshopIds)).listed_perm
  rw [ids_placed] at perm
  constructor
  · intro same
    rw [← same]
    exact perm.nodup_iff.mpr mods.unique
  · intro once
    have all : workshopIds.Perm mods.ids := by
      refine (once.subperm known).perm_of_length_le ?_
      rw [counted, ids, length_map]
    refine Perm.eq_of_pairwise ?_ ?_ (pairwise_placeOf once) (perm.trans all.symm)
    · intro first second firstIn secondIn before behind
      exact placeOf_inj (all.symm.subset (perm.subset firstIn)) (Nat.le_antisymm before behind)
    · unfold listed
      rw [pairwise_map]
      have sorted := @List.pairwise_mergeSort _
        (fun first second : ServerMod Id => decide (first.position ≤ second.position))
        (fun _ _ _ one two => by
          rw [decide_eq_true_eq] at one two ⊢
          exact Int.le_trans one two)
        (fun first second => by
          rw [Bool.or_eq_true, decide_eq_true_eq, decide_eq_true_eq]
          exact Int.le_total first.position second.position)
        (mods.placed (given workshopIds)).rows
      have placeOfRow : ∀ row ∈ (mods.placed (given workshopIds)).rows,
          row.position = (placeOf workshopIds row.workshopId : Int) := by
        intro row member
        obtain ⟨mod, modIn, rfl⟩ := List.mem_map.mp member
        have named : mod.workshopId ∈ workshopIds := all.symm.subset (List.mem_map_of_mem modIn)
        show (given _ _).getD _ = _
        unfold given
        rw [if_pos named]
        rfl
      refine sorted.imp_of_mem fun {first second} firstIn secondIn before => ?_
      rw [decide_eq_true_eq, placeOfRow first ((mergeSort_perm _ _).subset firstIn),
        placeOfRow second ((mergeSort_perm _ _).subset secondIn)] at before
      exact Int.ofNat_le.mp before

end ModList

/-! ### Runs -/

/-- No two mods stand at one position, and an order just saved over an unchanged list is the
order the mods are listed in. -/
def ModState.Orderly (state : ModState Client Id) : Prop :=
  state.mods.Distinct ∧ ∀ workshopIds, state.saved = some workshopIds →
    state.mods.listed = workshopIds

/-- What an operation goes on with is not made stale by the others: nobody stands where its new
mods go, or where a reorder puts one of those it names while it leaves the other; and a reorder
over an unchanged list names no mod twice. -/
def ModWork.Fits (state : ModState Client Id) : ModWork Id → Prop
  | .addingAt workshopId last =>
    workshopId ∉ state.mods.ids → ∀ mod ∈ state.mods.rows, mod.position ≠ last + 1
  | .addingAllAt collectionId fresh _ last =>
    ∀ new ∈ ModList.joining state.mods.ids
        (collectionRows state.nextRow collectionId fresh last),
      ∀ mod ∈ state.mods.rows, mod.position ≠ new.position
  | .reordering seen workshopIds _ =>
    (∀ id ∈ workshopIds, id ∈ state.mods.ids) →
      (state.mods = seen → workshopIds.Nodup) ∧
      ∀ mod ∈ state.mods.rows, mod.workshopId ∉ workshopIds →
        ∀ id ∈ workshopIds, mod.position ≠ (placeOf workshopIds id : Int)
  | _ => True

def ModEvent.Fits (state : ModState Client Id) : ModEvent Client Id → Prop
  | .next client => ∀ work, state.work client = some work → work.Fits state
  | _ => True

omit [DecidableEq Id] in
/-- A collection's new rows stand behind each other. -/
theorem nodup_collectionRows (nextRow : Nat) (collectionId : Id) (fresh : List Id) (last : Int) :
    ((collectionRows nextRow collectionId fresh last).map ServerMod.position).Nodup := by
  have places : (collectionRows nextRow collectionId fresh last).map ServerMod.position =
      (fresh.zipIdx.map Prod.snd).map fun index : Nat => last + 1 + (index : Int) := by
    rw [List.map_map]
    exact List.map_map
  rw [places, zipIdx_map_snd]
  exact (nodup_range' 1).map fun first second same => by
    have same' : last + 1 + (first : Int) = last + 1 + (second : Int) := same
    omega

omit [DecidableEq Id] [DecidableEq Client] in
theorem orderly_of_distinct {state : ModState Client Id} (distinct : state.mods.Distinct)
    (unsaved : state.saved = none) : state.Orderly :=
  ⟨distinct, fun workshopIds saved => by rw [unsaved] at saved; cases saved⟩

/-- One statement leaves the mods in order exactly if it is not made stale. -/
theorem orderly_resume {state : ModState Client Id} (orderly : state.Orderly) (client : Client)
    (work : ModWork Id) : (state.resume client work).Orderly ↔ work.Fits state := by
  have distinct := orderly.1
  cases work with
  | adding workshopId => exact iff_of_true (orderly_of_distinct distinct rfl) trivial
  | adopting collectionId adopted =>
    exact iff_of_true (orderly_of_distinct ((state.mods.distinct_adopt _ _).mpr distinct) rfl)
      trivial
  | addingAll collectionId fresh adopted =>
    exact iff_of_true (orderly_of_distinct distinct rfl) trivial
  | removing row =>
    exact iff_of_true (orderly_of_distinct (ModList.distinct_delete distinct _) rfl) trivial
  | removingCollection collectionId =>
    exact iff_of_true (orderly_of_distinct (ModList.distinct_delete distinct _) rfl) trivial
  | addingAt workshopId last =>
    unfold ModState.resume ModWork.Fits ModList.create
    dsimp only
    by_cases present : workshopId ∈ state.mods.ids
    · rw [if_pos (show (newRow _ workshopId last).workshopId ∈ _ from present)]
      exact iff_of_true (orderly_of_distinct distinct rfl) fun absent => absurd present absent
    · rw [if_neg (show (newRow _ workshopId last).workshopId ∉ _ from present)]
      have joins := @ModList.distinct_createMany _ _ state.mods distinct
        [newRow state.nextRow workshopId last] (nodup_singleton _)
      have alone : ModList.joining state.mods.ids [newRow state.nextRow workshopId last] =
          [newRow state.nextRow workshopId last] := if_neg present
      rw [alone, forall_mem_singleton] at joins
      constructor
      · exact fun after _ => joins.mp after.1
      · exact fun free => orderly_of_distinct (joins.mpr (free present)) rfl
  | addingAllAt collectionId fresh adopted last =>
    have joins := ModList.distinct_createMany distinct
      (nodup_collectionRows state.nextRow collectionId fresh last)
    refine Iff.trans ⟨fun after => ?_, fun free => ?_⟩ joins
    · exact (ModList.distinct_adopt _ _ _).mp after.1
    · exact orderly_of_distinct ((ModList.distinct_adopt _ _ _).mpr free) rfl
  | reordering seen workshopIds counted =>
    unfold ModState.resume ModWork.Fits
    dsimp only
    rw [ModList.reordered_eq]
    by_cases known : ∀ id ∈ workshopIds, id ∈ state.mods.ids
    · rw [if_pos known]
      dsimp only
      have places := ModList.distinct_placed distinct known
      constructor
      · intro after _
        refine ⟨fun unchanged => ?_, places.mp after.1⟩
        rw [← ModList.listed_placed known (by rw [counted, unchanged])]
        exact after.2 workshopIds (if_pos unchanged)
      · intro fits
        obtain ⟨once, free⟩ := fits known
        refine ⟨places.mpr free, fun saved same => ?_⟩
        by_cases unchanged : state.mods = seen
        · rw [if_pos unchanged] at same
          obtain rfl := some.inj same
          rw [← unchanged] at counted
          exact (ModList.listed_placed known counted).mpr (once unchanged)
        · rw [if_neg unchanged] at same
          cases same
    · rw [if_neg known]
      exact iff_of_true (orderly_of_distinct distinct rfl) fun all => absurd all known

theorem orderly_begin {state : ModState Client Id} (orderly : state.Orderly) (client : Client)
    (call : ModCall Id) : (state.begin_ client call).Orderly := by
  cases call <;> exact orderly_of_distinct orderly.1 rfl

/-- From mods at positions of their own, in any run of adds, removals and reorders of any number
of callers: the positions stay distinct, and each reorder over an unchanged list saves the order
it was given, exactly if no statement of the run is made stale. -/
theorem load_order_iff (mods : ModList Id) (nextRow : Nat) (distinct : mods.Distinct)
    (events : List (ModEvent Client Id)) :
    Systems.Along modStep ModState.Orderly { mods, nextRow } events ↔
      Systems.Meets modStep (fun state event => event.Fits state) { mods, nextRow } events := by
  refine Systems.along_iff_meets (fun _ _ _ (_ : True) _ _ _ => trivial) ?_ ?_ trivial
    (orderly_of_distinct distinct rfl)
  · intro state event next _ orderly taken
    cases event with
    | call client call =>
      refine iff_of_true ?_ trivial
      unfold modStep at taken
      dsimp only at taken
      split at taken
      · obtain rfl := some.inj taken
        exact orderly_begin orderly client call
      · cases taken
    | next client =>
      obtain ⟨work, under, rfl⟩ := map_eq_some_iff.mp taken
      rw [orderly_resume orderly client work]
      refine ⟨fun fits other same => ?_, fun fits => fits work under⟩
      obtain rfl := some.inj (under.symm.trans same)
      exact fits
    | fail client =>
      obtain ⟨work, under, rfl⟩ := map_eq_some_iff.mp taken
      exact iff_of_true (orderly_of_distinct orderly.1 rfl) trivial
  · intro state event idle
    cases event with
    | call client call => trivial
    | next client =>
      intro work under
      have over_ : (state.work client).map (state.resume client) = none := idle
      rw [under] at over_
      cases over_
    | fail client => trivial

def twoMods : ModList String where
  rows := [{ id := 0, workshopId := "a", position := 1, collectionId := none },
    { id := 1, workshopId := "b", position := 2, collectionId := none }]
  unique := by decide

/-- A third mod is added, the first is taken out, and the two that are left are put in order. -/
def addedThenOrdered : List (ModEvent Nat String) :=
  [.call 0 (.add "c"), .next 0, .next 0, .call 0 (.remove "a"), .next 0,
    .call 1 (.reorder ["c", "b"]), .next 1]

theorem load_order_ordered : ∃ last, Systems.run modStep
    { mods := twoMods, nextRow := 2 } addedThenOrdered = some last ∧
      last.mods.listed = ["c", "b"] := by
  have along := (@load_order_iff String _ Nat _ twoMods 2 (by decide) addedThenOrdered).mpr ?_
  · exact ⟨_, rfl, (Systems.along_last along rfl).2 ["c", "b"] rfl⟩
  refine ⟨trivial, fun next taken => ⟨fun work under => ?_, fun next read => ⟨fun work under => ?_,
    fun next added => ⟨trivial, fun next called => ⟨fun work under => ?_, fun next removed =>
      ⟨trivial, fun next asked => ⟨fun work under => ?_, fun _ _ => trivial⟩⟩⟩⟩⟩⟩⟩
  · obtain rfl := some.inj taken
    obtain rfl := some.inj under
    trivial
  · obtain rfl := some.inj taken
    obtain rfl := some.inj read
    obtain rfl := some.inj under
    exact fun _ => by decide
  · obtain rfl := some.inj taken
    obtain rfl := some.inj read
    obtain rfl := some.inj added
    obtain rfl := some.inj called
    obtain rfl := some.inj under
    trivial
  · obtain rfl := some.inj taken
    obtain rfl := some.inj read
    obtain rfl := some.inj added
    obtain rfl := some.inj called
    obtain rfl := some.inj removed
    obtain rfl := some.inj asked
    obtain rfl := some.inj under
    exact fun _ => ⟨fun _ => by decide, by decide⟩

/-- Two mods added at once come to one position, and an order that names one mod twice is saved
in another one. -/
theorem added_at_once : (¬ ∀ events : List (ModEvent Bool String), Systems.Along modStep
      (fun state => state.mods.Distinct) { mods := twoMods, nextRow := 2 } events) ∧
    ¬ ∀ events : List (ModEvent Bool String), Systems.Along modStep
      (fun state => ∀ workshopIds, state.saved = some workshopIds →
        state.mods.listed = workshopIds) { mods := twoMods, nextRow := 2 } events := by
  constructor
  · intro always
    have last := Systems.along_last (always [.call true (.add "c"), .call false (.add "d"),
      .next true, .next false, .next true, .next false]) rfl
    exact absurd last (by decide)
  · intro always
    have last := Systems.along_last (always [.call true (.reorder ["a", "a"]), .next true]) rfl
    have once : ∀ {mods : ModList String}, mods.listed ≠ ["a", "a"] := fun {mods} same =>
      absurd (same ▸ mods.listed_perm.nodup_iff.mpr mods.unique) (by decide)
    exact once (last ["a", "a"] rfl)

end Geeboard.Panel
