/-
This file is about what a collection amounts to, as a list of items to add.

A collection lists items and links to further collections. What the links lead to is
asked level by level, up to so many collections; what was answered is then walked
depth first, up to so many items. The list is the beginning of the walk that no limit
cuts short, and the whole of it unless the answer says that a limit cut it.
-/

import Geeboard.Systems.Preorders
import Geeboard.Text.Records

namespace Geeboard.Games.Collections

open Systems.Preorders List Option
open Text (Record)

variable {Id : Type} [DecidableEq Id]

structure CollectionEntry (Id : Type) where
  id : Id
  /-- A linked collection rather than an item. -/
  collection : Bool
  deriving DecidableEq, Repr

structure ExpandedCollection (Id : Type) where
  items : List Id
  linked : List Id
  fromLinked : List Id
  missing : List Id
  truncated : Bool
  deriving DecidableEq, Repr

structure Limits where
  items : Nat
  collections : Nat

/-! ### Asking, level by level -/

/-- What was asked and answered so far, and the calls that asked it. -/
structure Asking (Id : Type) where
  tree : Record Id (List (CollectionEntry Id))
  asked : List Id
  frontier : List Id
  calls : List (List Id)

def Asking.start (root : Id) : Asking Id := ⟨Record.empty, [], [root], []⟩

/-- The collections asked about in one call. -/
def Asking.batch (limits : Limits) (asking : Asking Id) : List Id :=
  asking.frontier.take (limits.collections - asking.asked.length)

/-- The answers of a call, kept with those before. -/
def answered (contents : Id → Option (List (CollectionEntry Id)))
    (tree : Record Id (List (CollectionEntry Id))) (batch : List Id) :
    Record Id (List (CollectionEntry Id)) :=
  batch.foldl (fun tree id =>
    match contents id with
    | some children => tree.set id children
    | none => tree) tree

/-- One call, and what it leaves to ask. -/
def Asking.next (contents : Id → Option (List (CollectionEntry Id))) (limits : Limits)
    (asking : Asking Id) : Asking Id :=
  let batch := asking.batch limits
  let asked := (asking.asked ++ batch).eraseDups
  let tree := answered contents asking.tree batch
  let linked := (batch.flatMap fun id => (tree.get id).getD []).filter fun child =>
    child.collection && !asked.contains child.id
  { tree, asked, frontier := (linked.map CollectionEntry.id).eraseDups
    calls := asking.calls ++ [batch] }

/-- The calls, of which so many are allowed at most. -/
def ask (contents : Id → Option (List (CollectionEntry Id))) (limits : Limits) :
    Nat → Asking Id → Option (Asking Id)
  | turns, asking =>
    if asking.frontier ≠ [] ∧ asking.asked.length < limits.collections then
      match turns with
      | 0 => none
      | turns + 1 => ask contents limits turns (asking.next contents limits)
    else some asking

/-! ### Walking what was answered -/

/-- What the walk has listed so far. -/
structure Listing (Id : Type) where
  items : List Id
  kept : List Id
  linked : List Id
  missing : List Id
  entered : List Id
  truncated : Bool

/-- The walk over what one collection lists; `deeper` walks what a link leads to. -/
def visit (limits : Limits) (asking : Asking Id)
    (deeper : List (CollectionEntry Id) → Listing Id → Option (Listing Id)) :
    List (CollectionEntry Id) → Listing Id → Option (Listing Id)
  | [], listing => some listing
  | child :: rest, listing =>
    if listing.truncated then some listing
    else if child.collection then
      if child.id ∈ listing.entered then visit limits asking deeper rest listing
      else
        let entered := { listing with entered := listing.entered ++ [child.id] }
        match asking.tree.get child.id with
        | some children =>
          (deeper children { entered with linked := entered.linked ++ [child.id] }).bind
            (visit limits asking deeper rest)
        | none =>
          if child.id ∈ asking.asked then
            visit limits asking deeper rest
              { entered with missing := entered.missing ++ [child.id] }
          else visit limits asking deeper rest { entered with truncated := true }
    else if child.id ∈ listing.kept then visit limits asking deeper rest listing
    else if limits.items ≤ listing.items.length then some { listing with truncated := true }
    else
      visit limits asking deeper rest
        { listing with kept := listing.kept ++ [child.id], items := listing.items ++ [child.id] }

/-- The walk, with so many collections inside one another at most. -/
def walk (limits : Limits) (asking : Asking Id) :
    Nat → List (CollectionEntry Id) → Listing Id → Option (Listing Id)
  | 0 => visit limits asking fun _ _ => none
  | depth + 1 => visit limits asking (walk limits asking depth)

/-- What a collection amounts to, and the calls that asked about it. There are as many rounds
of calls at most as there are collections to ask about, and as many collections inside one
another; the first `none` would stand for more. -/
def expandCollection (contents : Id → Option (List (CollectionEntry Id))) (limits : Limits)
    (root : Id) : Option (List (List Id) × Option (ExpandedCollection Id)) := do
  let asking ← ask contents limits limits.collections (Asking.start root)
  match asking.tree.get root with
  | none => return (asking.calls, none)
  | some children =>
    let listing ← walk limits asking limits.collections children ⟨[], [], [], [], [root], false⟩
    let own := (children.filter fun child => !child.collection).map CollectionEntry.id
    return (asking.calls, some {
      items := listing.items
      linked := listing.linked
      fromLinked := listing.items.filter fun id => !own.contains id
      missing := listing.missing
      truncated := listing.truncated })

/-! ### What was asked -/

/-- What holds of the calls so far: each collection was asked about once, within the limit, and
what was answered is kept. -/
structure Asked (contents : Id → Option (List (CollectionEntry Id))) (limits : Limits) (root : Id)
    (asking : Asking Id) : Prop where
  once : asking.asked.Nodup
  within : asking.asked.length ≤ limits.collections
  called : asking.calls.flatten = asking.asked
  knows : ∀ id, asking.tree.get id = if id ∈ asking.asked then contents id else none
  ahead : asking.frontier.Nodup
  fresh : ∀ id ∈ asking.frontier, id ∉ asking.asked
  first : asking.asked = [] ∧ asking.frontier = [root] ∨ root ∈ asking.asked

section Asking

variable (contents : Id → Option (List (CollectionEntry Id))) (limits : Limits) (root : Id)

theorem get_answered (tree : Record Id (List (CollectionEntry Id))) (batch : List Id) (id : Id) :
    (answered contents tree batch).get id =
      if id ∈ batch then (contents id).or (tree.get id) else tree.get id := by
  induction batch generalizing tree with
  | nil => rfl
  | cons first rest inductionHypothesis =>
    rw [answered, foldl_cons]
    have later := inductionHypothesis (match contents first with
      | some children => tree.set first children
      | none => tree)
    rw [answered] at later
    rw [later]
    by_cases same : id = first
    · subst same
      rw [if_pos mem_cons_self]
      cases contents id with
      | none => simp only [none_or, ite_self]
      | some children => simp only [some_or, Record.get_set_self, ite_self]
    · have others : (match contents first with
          | some children => tree.set first children
          | none => tree).get id = tree.get id := by
        split
        · exact Record.get_set_of_ne tree _ (Ne.symm same)
        · rfl
      rw [others]
      simp only [mem_cons, same, false_or]

theorem Asked.start : Asked contents limits root (Asking.start root) where
  once := nodup_nil
  within := Nat.zero_le _
  called := rfl
  knows := fun _ => rfl
  ahead := nodup_singleton root
  fresh := fun _ _ => not_mem_nil
  first := .inl ⟨rfl, rfl⟩

variable {contents limits root} {asking : Asking Id}

theorem Asked.asked_next (kept : Asked contents limits root asking) :
    (asking.next contents limits).asked = asking.asked ++ asking.batch limits := by
  have batch : (asking.batch limits).Nodup := kept.ahead.sublist (take_sublist _ _)
  refine eraseDups_of_nodup (nodup_append.mpr ⟨kept.once, batch, ?_⟩)
  rintro id asked other inBatch rfl
  exact kept.fresh id (mem_of_mem_take inBatch) asked

/-- A call keeps what holds of the calls so far. -/
theorem Asked.next (kept : Asked contents limits root asking)
    (open_ : asking.asked.length < limits.collections) :
    Asked contents limits root (asking.next contents limits) := by
  have asked := kept.asked_next
  have batch : (asking.batch limits).Nodup := kept.ahead.sublist (take_sublist _ _)
  have short : (asking.batch limits).length ≤ limits.collections - asking.asked.length :=
    length_take_le _ _
  refine ⟨nodup_eraseDups _, ?within, ?called, ?knows, nodup_eraseDups _, ?fresh, ?first⟩
  case within =>
    rw [asked, length_append]
    omega
  case called =>
    rw [asked, ← kept.called]
    exact flatten_append.trans (by rw [flatten_singleton])
  case knows =>
    intro id
    have before : asking.tree.get id = if id ∈ asking.asked then contents id else none :=
      kept.knows id
    rw [asked]
    refine (get_answered contents asking.tree (asking.batch limits) id).trans ?_
    rw [before]
    by_cases inBatch : id ∈ asking.batch limits
    · have new : id ∉ asking.asked := kept.fresh id (mem_of_mem_take inBatch)
      simp only [inBatch, if_true, new, if_false, or_none, mem_append, or_true]
    · simp only [inBatch, if_false, mem_append, or_false]
  case fresh =>
    intro id member
    have linked := mem_eraseDups.mp member
    obtain ⟨child, inside, rfl⟩ := List.mem_map.mp linked
    have unasked := (Bool.and_eq_true_iff.mp (mem_filter.mp inside).2).2
    rwa [Bool.not_eq_true', ← Bool.not_eq_true, contains_iff_mem] at unasked
  case first =>
    refine .inr ?_
    rw [asked]
    rcases kept.first with ⟨none_, only_⟩ | member
    · refine mem_append_right _ ?_
      rw [Asking.batch, only_, none_, length_nil, Nat.sub_zero]
      obtain ⟨before, more⟩ : ∃ before, limits.collections = before + 1 :=
        ⟨limits.collections - 1, by omega⟩
      rw [more]
      exact mem_cons_self
    · exact mem_append_left _ member

/-- The calls end, within one round for each collection that may be asked about. -/
theorem exists_ask (turns : Nat) (kept : Asked contents limits root asking)
    (enough : limits.collections - asking.asked.length ≤ turns) :
    ∃ last, ask contents limits turns asking = some last ∧ Asked contents limits root last ∧
      (last.frontier = [] ∨ limits.collections ≤ last.asked.length) := by
  induction turns generalizing asking with
  | zero =>
    have full : ¬asking.asked.length < limits.collections := by omega
    refine ⟨asking, ?_, kept, .inr (by omega)⟩
    rw [ask, if_neg fun both => full both.2]
  | succ turns inductionHypothesis =>
    by_cases more : asking.frontier ≠ [] ∧ asking.asked.length < limits.collections
    · rw [ask, if_pos more]
      refine inductionHypothesis (kept.next more.2) ?_
      have some_ : 0 < (asking.batch limits).length := by
        rw [Asking.batch, length_take]
        have := length_pos_iff.mpr more.1
        omega
      rw [kept.asked_next, length_append]
      omega
    · refine ⟨asking, ?_, kept, ?_⟩
      · rw [ask, if_neg more]
      · by_cases none_ : asking.frontier = []
        · exact .inl none_
        · exact .inr (Nat.le_of_not_lt fun fewer => more ⟨none_, fewer⟩)

end Asking

/-! ### What the walk does with an entry -/

section Visiting

variable {limits : Limits} {asking : Asking Id}
  {deeper : List (CollectionEntry Id) → Listing Id → Option (Listing Id)}
  {child : CollectionEntry Id} {rest : List (CollectionEntry Id)} {listing : Listing Id}

theorem visit_of_truncated (entries : List (CollectionEntry Id))
    (truncated : listing.truncated = true) :
    visit limits asking deeper entries listing = some listing := by
  cases entries with
  | nil => rfl
  | cons child rest => rw [visit, if_pos truncated]

theorem visit_entered (going : listing.truncated = false) (collection : child.collection = true)
    (entered : child.id ∈ listing.entered) :
    visit limits asking deeper (child :: rest) listing =
      visit limits asking deeper rest listing := by
  rw [visit, if_neg (by rw [going]; exact Bool.false_ne_true), if_pos collection, if_pos entered]

theorem visit_link {children : List (CollectionEntry Id)} (going : listing.truncated = false)
    (collection : child.collection = true) (new : child.id ∉ listing.entered)
    (found : asking.tree.get child.id = some children) :
    visit limits asking deeper (child :: rest) listing =
      (deeper children
        { listing with
          entered := listing.entered ++ [child.id], linked := listing.linked ++ [child.id] }).bind
        (visit limits asking deeper rest) := by
  rw [visit, if_neg (by rw [going]; exact Bool.false_ne_true), if_pos collection, if_neg new]
  simp only [found]

theorem visit_missing (going : listing.truncated = false) (collection : child.collection = true)
    (new : child.id ∉ listing.entered) (absent : asking.tree.get child.id = none)
    (asked : child.id ∈ asking.asked) :
    visit limits asking deeper (child :: rest) listing =
      visit limits asking deeper rest
        { listing with
          entered := listing.entered ++ [child.id], missing := listing.missing ++ [child.id] } := by
  rw [visit, if_neg (by rw [going]; exact Bool.false_ne_true), if_pos collection, if_neg new]
  simp only [absent, asked, if_true]

theorem visit_unasked (going : listing.truncated = false) (collection : child.collection = true)
    (new : child.id ∉ listing.entered) (absent : asking.tree.get child.id = none)
    (unasked : child.id ∉ asking.asked) :
    visit limits asking deeper (child :: rest) listing =
      some { listing with entered := listing.entered ++ [child.id], truncated := true } := by
  rw [visit, if_neg (by rw [going]; exact Bool.false_ne_true), if_pos collection, if_neg new]
  simp only [absent, unasked, if_false]
  exact visit_of_truncated rest rfl

theorem visit_again (going : listing.truncated = false) (item : child.collection = false)
    (again : child.id ∈ listing.kept) :
    visit limits asking deeper (child :: rest) listing =
      visit limits asking deeper rest listing := by
  rw [visit, if_neg (by rw [going]; exact Bool.false_ne_true),
    if_neg (by rw [item]; exact Bool.false_ne_true), if_pos again]

theorem visit_full (going : listing.truncated = false) (item : child.collection = false)
    (new : child.id ∉ listing.kept) (full : limits.items ≤ listing.items.length) :
    visit limits asking deeper (child :: rest) listing =
      some { listing with truncated := true } := by
  rw [visit, if_neg (by rw [going]; exact Bool.false_ne_true),
    if_neg (by rw [item]; exact Bool.false_ne_true), if_neg new, if_pos full]

theorem visit_item (going : listing.truncated = false) (item : child.collection = false)
    (new : child.id ∉ listing.kept) (room : listing.items.length < limits.items) :
    visit limits asking deeper (child :: rest) listing =
      visit limits asking deeper rest
        { listing with
          kept := listing.kept ++ [child.id], items := listing.items ++ [child.id] } := by
  rw [visit, if_neg (by rw [going]; exact Bool.false_ne_true),
    if_neg (by rw [item]; exact Bool.false_ne_true), if_neg new, if_neg (Nat.not_le_of_lt room)]

end Visiting

/-! ### The walk no limit cuts short -/

/-- What a collection lists, as a node of a walk lists it. -/
def CollectionEntry.entry (child : CollectionEntry Id) : Entry Id :=
  if child.collection then .node child.id else .leaf child.id

/-- What there is in each collection; what does not answer has nothing in it. -/
def links (contents : Id → Option (List (CollectionEntry Id))) (id : Id) : List (Entry Id) :=
  ((contents id).getD []).map CollectionEntry.entry

section Walking

variable (contents : Id → Option (List (CollectionEntry Id))) (limits : Limits)
  (asking : Asking Id)

/-- A list is what a walk has met, each once, within the limit. -/
structure Lists (walk : Walk Id) (listing : Listing Id) : Prop where
  entered : listing.entered = walk.entered
  items : listing.items = walk.met.eraseDups
  kept : listing.kept = listing.items
  within : listing.items.length ≤ limits.items

/-- Whether a walk over entries goes along with the walk no limit cuts short: it stops where
that one stands, and has left the entries behind unless a limit cut it. -/
def GoesAlong (deeper : List (CollectionEntry Id) → Listing Id → Option (Listing Id)) : Prop :=
  ∀ entries listing last, deeper entries listing = some last → listing.truncated = false →
    ∀ walk rest, Lists limits walk listing →
      walk.ahead = entries.map CollectionEntry.entry ++ rest →
      ∃ count, Lists limits (walk.steps (links contents) count) last ∧
        (last.truncated = false → (walk.steps (links contents) count).ahead = rest)

variable {contents limits asking}

/-- What is true one entry further is true of the walk. -/
theorem along_of_step {walk : Walk Id} {last : Listing Id} {rest : List (Entry Id)}
    (along : ∃ count, Lists limits ((walk.step (links contents)).steps (links contents) count) last ∧
      (last.truncated = false →
        ((walk.step (links contents)).steps (links contents) count).ahead = rest)) :
    ∃ count, Lists limits (walk.steps (links contents) count) last ∧
      (last.truncated = false → (walk.steps (links contents) count).ahead = rest) := by
  obtain ⟨count, lists, behind⟩ := along
  exact ⟨count + 1, lists, behind⟩

theorem step_leaf {walk : Walk Id} {id : Id} {rest : List (Entry Id)}
    (ahead : walk.ahead = .leaf id :: rest) :
    walk.step (links contents) = { walk with ahead := rest, met := walk.met ++ [id] } := by
  rw [Walk.step, ahead]

theorem step_entered {walk : Walk Id} {id : Id} {rest : List (Entry Id)}
    (ahead : walk.ahead = .node id :: rest) (entered : id ∈ walk.entered) :
    walk.step (links contents) = { walk with ahead := rest } := by
  rw [Walk.step, ahead]
  exact if_pos entered

theorem step_node {walk : Walk Id} {id : Id} {rest : List (Entry Id)}
    (ahead : walk.ahead = .node id :: rest) (new : id ∉ walk.entered) :
    walk.step (links contents) =
      { walk with ahead := links contents id ++ rest, entered := walk.entered ++ [id] } := by
  rw [Walk.step, ahead]
  exact if_neg new

theorem Lists.leaf_again {walk : Walk Id} {listing : Listing Id} {id : Id}
    (lists : Lists limits walk listing) (again : id ∈ listing.kept) (ahead : List (Entry Id)) :
    Lists limits { walk with ahead, met := walk.met ++ [id] } listing where
  entered := lists.entered
  items := by
    rw [lists.kept, lists.items, mem_eraseDups] at again
    rw [eraseDups_concat_of_mem again]
    exact lists.items
  kept := lists.kept
  within := lists.within

theorem Lists.leaf_new {walk : Walk Id} {listing : Listing Id} {id : Id}
    (lists : Lists limits walk listing) (new : id ∉ listing.kept)
    (room : listing.items.length < limits.items) (ahead : List (Entry Id)) :
    Lists limits { walk with ahead, met := walk.met ++ [id] }
      { listing with kept := listing.kept ++ [id], items := listing.items ++ [id] } where
  entered := lists.entered
  items := by
    rw [lists.kept, lists.items, mem_eraseDups] at new
    rw [eraseDups_concat_of_not_mem new, lists.items]
  kept := by rw [lists.kept]
  within := by
    rw [length_append, length_singleton]
    exact room

theorem Lists.entering {walk : Walk Id} {listing : Listing Id}
    (lists : Lists limits walk listing) (id : Id) (ahead : List (Entry Id))
    (linked missing : List Id) (truncated : Bool) :
    Lists limits { walk with ahead, entered := walk.entered ++ [id] }
      { listing with entered := listing.entered ++ [id], linked, missing, truncated } where
  entered := by rw [lists.entered]
  items := lists.items
  kept := lists.kept
  within := lists.within

/-- The walk over what one collection lists goes along, when the walk over what its links lead
to does. -/
theorem visit_goesAlong
    (knows : ∀ id, asking.tree.get id = if id ∈ asking.asked then contents id else none)
    {deeper : List (CollectionEntry Id) → Listing Id → Option (Listing Id)}
    (below : GoesAlong contents limits deeper) :
    GoesAlong contents limits (visit limits asking deeper) := by
  intro entries
  induction entries with
  | nil =>
    intro listing last visited _ walk rest lists ahead
    obtain rfl : listing = last := some.inj visited
    exact ⟨0, lists, fun _ => ahead⟩
  | cons child entries inductionHypothesis =>
    intro listing last visited going walk rest lists ahead
    rw [map_cons, cons_append] at ahead
    have same (walk : Walk Id) (lists : Lists limits walk listing)
        (ahead : walk.ahead = entries.map CollectionEntry.entry ++ rest)
        (visited : visit limits asking deeper entries listing = some last) :=
      inductionHypothesis listing last visited going walk rest lists ahead
    cases collection : child.collection with
    | true =>
      have node : child.entry = .node child.id := if_pos collection
      rw [node] at ahead
      refine along_of_step ?_
      by_cases entered : child.id ∈ listing.entered
      · rw [visit_entered going collection entered] at visited
        rw [step_entered ahead (lists.entered ▸ entered)]
        exact same _ ⟨lists.entered, lists.items, lists.kept, lists.within⟩ rfl visited
      · rw [step_node ahead (lists.entered ▸ entered)]
        have known := knows child.id
        cases found : asking.tree.get child.id with
        | some children =>
          rw [visit_link going collection entered found] at visited
          obtain ⟨between, inside, outside⟩ := bind_eq_some_iff.mp visited
          have answer : contents child.id = some children := by
            rw [found] at known
            split at known
            · exact known.symm
            · exact absurd known (some_ne_none _)
          have listed : links contents child.id = children.map CollectionEntry.entry := by
            rw [links, answer]
            rfl
          rw [listed]
          obtain ⟨first, along, behind⟩ := below children _ between inside going _
            (entries.map CollectionEntry.entry ++ rest) (lists.entering child.id _ _ _ _) rfl
          cases cut : between.truncated with
          | true =>
            rw [visit_of_truncated entries cut] at outside
            obtain rfl : between = last := some.inj outside
            exact ⟨first, along, fun uncut => absurd (cut.symm.trans uncut).symm Bool.false_ne_true⟩
          | false =>
            obtain ⟨second, after, left⟩ := inductionHypothesis between last outside cut _ rest along (behind cut)
            refine ⟨first + second, ?_⟩
            rw [← Walk.steps_add]
            exact ⟨after, left⟩
        | none =>
          by_cases asked : child.id ∈ asking.asked
          · rw [visit_missing going collection entered found asked] at visited
            have silent : contents child.id = none := by
              rw [found, if_pos asked] at known
              exact known.symm
            have nothing : links contents child.id = [] := by rw [links, silent]; rfl
            rw [nothing, nil_append]
            exact inductionHypothesis _ last visited going _ rest (lists.entering child.id _ _ _ _) rfl
          · rw [visit_unasked going collection entered found asked] at visited
            obtain rfl := some.inj visited
            exact ⟨0, lists.entering child.id _ _ _ _,
              fun uncut => absurd uncut.symm Bool.false_ne_true⟩
    | false =>
      have leaf : child.entry = .leaf child.id :=
        if_neg (by rw [collection]; exact Bool.false_ne_true)
      rw [leaf] at ahead
      by_cases again : child.id ∈ listing.kept
      · rw [visit_again going collection again] at visited
        refine along_of_step ?_
        rw [step_leaf ahead]
        exact same _ (lists.leaf_again again _) rfl visited
      · by_cases full : limits.items ≤ listing.items.length
        · rw [visit_full going collection again full] at visited
          obtain rfl := some.inj visited
          exact ⟨0, ⟨lists.entered, lists.items, lists.kept, lists.within⟩,
            fun uncut => absurd uncut.symm Bool.false_ne_true⟩
        · have room := Nat.lt_of_not_le full
          rw [visit_item going collection again room] at visited
          refine along_of_step ?_
          rw [step_leaf ahead]
          exact inductionHypothesis _ last visited going _ rest (lists.leaf_new again room _) rfl

/-- The walk goes along, however many collections it may be inside of. -/
theorem walk_goesAlong
    (knows : ∀ id, asking.tree.get id = if id ∈ asking.asked then contents id else none)
    (depth : Nat) : GoesAlong contents limits (walk limits asking depth) := by
  induction depth with
  | zero =>
    refine visit_goesAlong knows fun _ _ _ nothing => ?_
    exact absurd nothing.symm (some_ne_none _)
  | succ depth inductionHypothesis => exact visit_goesAlong knows inductionHypothesis

/-! ### The walk ends -/

/-- How many of the collections asked about are not entered. -/
def unentered (asking : Asking Id) (entered : List Id) : Nat :=
  asking.asked.countP fun id => id ∉ entered

theorem unentered_mono {fewer more : List Id} (subset : fewer ⊆ more) :
    unentered asking more ≤ unentered asking fewer := by
  refine countP_mono_left fun id _ absent => ?_
  simp only [decide_eq_true_eq] at absent ⊢
  exact fun member => absent (subset member)

theorem unentered_entering {entered : List Id} {id : Id} (new : id ∉ entered)
    (asked : id ∈ asking.asked) :
    unentered asking (entered ++ [id]) < unentered asking entered := by
  have fewer (other : Id) : decide (other ∉ entered ++ [id]) =
      (decide (other ∉ entered ++ [id]) && decide (other ∉ entered)) := by
    simp only [mem_append, not_or, Bool.decide_and]
    cases decide (other ∉ entered) <;> simp only [Bool.false_and, Bool.true_and, Bool.and_true,
      Bool.and_false]
  unfold unentered
  rw [countP_eq_length_filter, countP_eq_length_filter,
    filter_congr fun other _ => fewer other, ← List.filter_filter]
  refine length_filter_lt_length_iff_exists.mpr
    ⟨id, mem_filter.mpr ⟨asked, decide_eq_true new⟩, ?_⟩
  simp only [mem_append, mem_singleton, or_true, not_true, decide_false,
    Bool.false_eq_true, not_false_eq_true]

/-- Whether a walk over entries ends when fewer than so many collections asked about are not
entered yet, leaving none that it found entered. -/
def EndsBelow (asking : Asking Id) (room : Nat)
    (deeper : List (CollectionEntry Id) → Listing Id → Option (Listing Id)) : Prop :=
  ∀ entries listing, unentered asking listing.entered < room →
    ∃ last, deeper entries listing = some last ∧ listing.entered ⊆ last.entered

theorem visit_ends (knows : ∀ id, (asking.tree.get id).isSome → id ∈ asking.asked) {room : Nat}
    {deeper : List (CollectionEntry Id) → Listing Id → Option (Listing Id)}
    (below : EndsBelow asking room deeper) :
    EndsBelow asking (room + 1) (visit limits asking deeper) := by
  intro entries
  induction entries with
  | nil => exact fun listing _ => ⟨listing, rfl, fun _ member => member⟩
  | cons child entries inductionHypothesis =>
    intro listing few
    -- what is left to enter only falls, and so the walk over the rest ends as well
    have rest (next : Listing Id) (grows : listing.entered ⊆ next.entered) :
        ∃ last, visit limits asking deeper entries next = some last ∧
          listing.entered ⊆ last.entered := by
      obtain ⟨last, visited, more⟩ := inductionHypothesis next (Nat.lt_of_le_of_lt (unentered_mono grows) few)
      exact ⟨last, visited, Subset.trans grows more⟩
    have grown : listing.entered ⊆ listing.entered ++ [child.id] :=
      subset_append_left _ _
    have self : listing.entered ⊆ listing.entered := Subset.refl _
    cases going : listing.truncated with
    | true => exact ⟨listing, visit_of_truncated _ going, self⟩
    | false =>
      cases collection : child.collection with
      | true =>
        by_cases entered : child.id ∈ listing.entered
        · rw [visit_entered going collection entered]
          exact rest listing self
        · cases found : asking.tree.get child.id with
          | some children =>
            rw [visit_link going collection entered found]
            have fewer := unentered_entering entered (knows child.id (by rw [found]; rfl))
            obtain ⟨between, inside, more⟩ := below children
              { listing with
                entered := listing.entered ++ [child.id],
                linked := listing.linked ++ [child.id] }
              (Nat.lt_of_lt_of_le fewer (Nat.le_of_lt_succ few))
            obtain ⟨last, outside, all⟩ := rest between (Subset.trans grown more)
            exact ⟨last, bind_eq_some_iff.mpr ⟨between, inside, outside⟩, all⟩
          | none =>
            by_cases asked : child.id ∈ asking.asked
            · rw [visit_missing going collection entered found asked]
              exact rest _ grown
            · rw [visit_unasked going collection entered found asked]
              exact ⟨_, rfl, grown⟩
      | false =>
        by_cases again : child.id ∈ listing.kept
        · rw [visit_again going collection again]
          exact rest listing self
        · by_cases full : limits.items ≤ listing.items.length
          · rw [visit_full going collection again full]
            exact ⟨_, rfl, self⟩
          · rw [visit_item going collection again (Nat.lt_of_not_le full)]
            exact rest _ self

theorem walk_ends (knows : ∀ id, (asking.tree.get id).isSome → id ∈ asking.asked) (depth : Nat) :
    EndsBelow asking (depth + 1) (walk limits asking depth) := by
  induction depth with
  | zero => exact visit_ends knows fun _ _ few => absurd few (Nat.not_lt_zero _)
  | succ depth inductionHypothesis => exact visit_ends knows inductionHypothesis

end Walking

/-! ### What comes of it -/

/-- What a collection amounts to. The calls end, having asked about each collection once and about
no more than the limit. There is no list exactly where the collection itself does not answer or
nothing may be asked. Where a limit cut the list short, it is a beginning of what the walk meets
first, no longer than the limit; where none did, it is all of it. -/
theorem expandCollection_preorder (contents : Id → Option (List (CollectionEntry Id)))
    (limits : Limits) (root : Id) :
    ∃ calls answer, expandCollection contents limits root = some (calls, answer) ∧
      calls.flatten.Nodup ∧ calls.flatten.length ≤ limits.collections ∧
      (answer = none ↔ contents root = none ∨ limits.collections = 0) ∧
      ∀ expanded, answer = some expanded →
        expanded.items.length ≤ limits.items ∧
        (expanded.truncated = true → Begins (links contents) root expanded.items) ∧
        (expanded.truncated = false → IsAll (links contents) root expanded.items) := by
  obtain ⟨asking, asks, asked, over_⟩ := exists_ask limits.collections
    (Asked.start contents limits root) (by simp only [Asking.start, length_nil]; omega)
  have known := asked.knows root
  have reached : root ∈ asking.asked ↔ limits.collections ≠ 0 := by
    constructor
    · intro member none_
      have some_ := length_pos_of_mem member
      have within := asked.within
      omega
    · intro some_
      rcases asked.first with ⟨nothing, only_⟩ | member
      · rcases over_ with none_ | full
        · rw [only_] at none_
          exact absurd none_ (cons_ne_nil _ _)
        · rw [nothing] at full
          exact absurd (Nat.le_zero.mp full) some_
      · exact member
  rw [expandCollection, asks]
  cases found : asking.tree.get root with
  | none =>
    refine ⟨asking.calls, none, by simp only [bind_eq_bind, bind_some, found]; rfl,
      asked.called ▸ asked.once, asked.called ▸ asked.within, ?_, fun _ some_ => nomatch some_⟩
    refine iff_of_true rfl ?_
    rw [found] at known
    by_cases member : root ∈ asking.asked
    · rw [if_pos member] at known
      exact .inl known.symm
    · exact .inr (not_not.mp fun some_ => member (reached.mpr some_))
  | some children =>
    rw [found] at known
    have member : root ∈ asking.asked := by
      by_contra absent
      rw [if_neg absent] at known
      exact some_ne_none _ known
    rw [if_pos member] at known
    have holds (id : Id) (some_ : (asking.tree.get id).isSome) : id ∈ asking.asked := by
      by_contra absent
      rw [asked.knows id, if_neg absent] at some_
      exact Bool.false_ne_true some_
    have few : unentered asking [root] < limits.collections + 1 :=
      Nat.lt_succ_of_le (Nat.le_trans countP_le_length asked.within)
    obtain ⟨last, walked, _⟩ := @walk_ends Id _ limits _ holds limits.collections children
      ⟨[], [], [], [], [root], false⟩ few
    obtain ⟨count, lists, behind⟩ := @walk_goesAlong Id _ _ limits _ asked.knows
      limits.collections children _ last walked rfl (Walk.start (links contents) root) []
      ⟨rfl, rfl, rfl, Nat.zero_le _⟩
      (by rw [Walk.start, links, ← known, append_nil]; rfl)
    simp only [bind_eq_bind, bind_some, found, walked]
    refine ⟨asking.calls, _, rfl, asked.called ▸ asked.once, asked.called ▸ asked.within, ?_, ?_⟩
    · refine iff_of_false (some_ne_none _) ?_
      rw [← known]
      rintro (silent | none_)
      · exact absurd silent (some_ne_none _)
      · exact reached.mp member none_
    · rintro expanded some_
      obtain rfl := some.inj some_
      have begins : last.items <+: ((Walk.start (links contents) root).steps (links contents)
          count).met.eraseDups := by
        exact lists.items ▸ prefix_rfl
      exact ⟨lists.within, fun _ => ⟨count, begins⟩,
        fun uncut => ⟨count, behind uncut, lists.items⟩⟩

end Geeboard.Games.Collections
