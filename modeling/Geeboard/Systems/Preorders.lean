/-
This file is about walking what nodes list, depth first and in their order. A node
lists leaves and further nodes; what a further node lists is met where the node
stands, and each node is entered once. The walk is a machine that takes one entry at
a time, so that it makes sense of a graph without an end as well: what it has met
after more steps begins with what it had met after fewer.
-/

import Mathlib.Logic.Function.Iterate
import Mathlib.Data.List.Induction
import Mathlib.Data.List.Nodup

namespace Systems.Preorders

open List

/-- What a node lists: a leaf, or a further node. -/
inductive Entry (Id : Type) where
  | leaf (id : Id)
  | node (id : Id)
  deriving DecidableEq, Repr

variable {Id : Type} [DecidableEq Id]

/-- A walk: what is still to be met, the nodes entered, and the leaves met. -/
structure Walk (Id : Type) where
  ahead : List (Entry Id)
  entered : List Id
  met : List Id

/-- One entry further. -/
def Walk.step (contents : Id → List (Entry Id)) (walk : Walk Id) : Walk Id :=
  match walk.ahead with
  | [] => walk
  | .leaf id :: rest => { walk with ahead := rest, met := walk.met ++ [id] }
  | .node id :: rest =>
    if id ∈ walk.entered then { walk with ahead := rest }
    else { walk with ahead := contents id ++ rest, entered := walk.entered ++ [id] }

/-- So many entries further. -/
def Walk.steps (contents : Id → List (Entry Id)) (count : Nat) (walk : Walk Id) : Walk Id :=
  (Walk.step contents)^[count] walk

/-- The walk at a node that is entered first. -/
def Walk.start (contents : Id → List (Entry Id)) (root : Id) : Walk Id :=
  ⟨contents root, [root], []⟩

variable (contents : Id → List (Entry Id))

theorem Walk.steps_add (first second : Nat) (walk : Walk Id) :
    (walk.steps contents first).steps contents second =
      walk.steps contents (first + second) := by
  rw [Nat.add_comm]
  exact (Function.iterate_add_apply (Walk.step contents) second first walk).symm

/-! ### First occurrences -/

theorem eraseDups_concat_of_mem {list : List Id} {id : Id} (member : id ∈ list) :
    (list ++ [id]).eraseDups = list.eraseDups := by
  have gone : [id].removeAll list = [] := by
    simp only [List.removeAll, filter_eq_nil_iff, mem_singleton, Bool.not_eq_true,
      Bool.not_eq_false', elem_eq_mem, decide_eq_true_eq]
    rintro other rfl
    exact member
  rw [eraseDups_append, gone, eraseDups_nil, append_nil]

theorem eraseDups_concat_of_not_mem {list : List Id} {id : Id} (new : id ∉ list) :
    (list ++ [id]).eraseDups = list.eraseDups ++ [id] := by
  have left : [id].removeAll list = [id] := by
    simp only [List.removeAll, filter_eq_self, mem_singleton, Bool.not_eq_true',
      elem_eq_mem, decide_eq_false_iff_not]
    rintro other rfl
    exact new
  rw [eraseDups_append, left, eraseDups_cons, filter_nil, eraseDups_nil]

theorem nodup_eraseDups (list : List Id) : list.eraseDups.Nodup := by
  induction list using List.reverseRecOn with
  | nil => exact nodup_nil
  | append_singleton list id inductionHypothesis =>
    by_cases member : id ∈ list
    · rwa [eraseDups_concat_of_mem member]
    · rw [eraseDups_concat_of_not_mem member]
      refine nodup_append.mpr ⟨inductionHypothesis, nodup_singleton id, fun other inside one here => ?_⟩
      obtain rfl := mem_singleton.mp here
      rintro rfl
      exact member (mem_eraseDups.mp inside)

theorem eraseDups_of_nodup {list : List Id} (once : list.Nodup) : list.eraseDups = list := by
  induction list using List.reverseRecOn with
  | nil => rfl
  | append_singleton list id inductionHypothesis =>
    obtain ⟨before, _, apart⟩ := nodup_append.mp once
    rw [eraseDups_concat_of_not_mem fun member => apart id member id (mem_singleton_self id) rfl,
      inductionHypothesis before]

/-- What of a walk is listed: what it meets first, each once, and no more than it meets. -/
def Begins (contents : Id → List (Entry Id)) (root : Id) (items : List Id) : Prop :=
  ∃ count, items <+: ((Walk.start contents root).steps contents count).met.eraseDups

/-- The whole walk is listed: it comes to an end, and all it met is there, each once, where it
was met first. -/
def IsAll (contents : Id → List (Entry Id)) (root : Id) (items : List Id) : Prop :=
  ∃ count, ((Walk.start contents root).steps contents count).ahead = [] ∧
    items = ((Walk.start contents root).steps contents count).met.eraseDups

end Systems.Preorders
