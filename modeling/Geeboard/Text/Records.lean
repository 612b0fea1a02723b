/-
This file is about records: what a JSON object or a JavaScript map holds, keys
with a value each, in the order in which the keys were first set. A key that is
set again keeps its place. Records are compared by what they give for a key.
-/

import Mathlib.Data.List.Nodup

namespace Text

open List Option

/-- Keys with one value each, in the order they were first set. -/
structure Record (Key Value : Type) where
  entries : List (Key × Value)
  distinct : (entries.map Prod.fst).Nodup
  deriving Repr

namespace Record

variable {Key Value Other : Type} [DecidableEq Key]

instance [DecidableEq Value] : DecidableEq (Record Key Value) := fun first second =>
  decidable_of_iff (first.entries = second.entries)
    ⟨fun same => by cases first; cases second; cases same; rfl, fun same => by rw [same]⟩

def empty : Record Key Value := ⟨[], nodup_nil⟩

def keys (record : Record Key Value) : List Key := record.entries.map Prod.fst

/-- The value of a key, when it is set. -/
def get (record : Record Key Value) (key : Key) : Option Value :=
  (record.entries.find? fun entry => entry.1 == key).map Prod.snd

def has (record : Record Key Value) (key : Key) : Bool := (record.get key).isSome

/-- The entries with one key set. -/
def setEntries (key : Key) (value : Value) : List (Key × Value) → List (Key × Value)
  | [] => [(key, value)]
  | entry :: entries =>
    if entry.1 = key then (key, value) :: entries else entry :: setEntries key value entries

theorem keys_setEntries (key : Key) (value : Value) (entries : List (Key × Value)) :
    (setEntries key value entries).map Prod.fst =
      if key ∈ entries.map Prod.fst then entries.map Prod.fst
      else entries.map Prod.fst ++ [key] := by
  induction entries with
  | nil => rfl
  | cons entry entries inductionHypothesis =>
    unfold setEntries
    by_cases here : entry.1 = key
    · have there : key ∈ (entry :: entries).map Prod.fst := mem_cons.mpr (Or.inl here.symm)
      rw [if_pos here, if_pos there, map_cons, map_cons, here]
    · have later : key ∈ (entry :: entries).map Prod.fst ↔ key ∈ entries.map Prod.fst :=
        mem_cons.trans (or_iff_right (Ne.symm here))
      rw [if_neg here, map_cons, inductionHypothesis]
      simp only [later]
      split
      · rfl
      · rfl

/-- A record with one key set. -/
def set (record : Record Key Value) (key : Key) (value : Value) : Record Key Value where
  entries := setEntries key value record.entries
  distinct := by
    rw [keys_setEntries]
    split
    · exact record.distinct
    · rename_i new
      refine nodup_append.mpr ⟨record.distinct, nodup_singleton _, ?_⟩
      intro other member one same equal
      exact new (mem_singleton.mp same ▸ equal ▸ member)

/-- The keys of the second record set in the first, in their order. -/
def merge (record more : Record Key Value) : Record Key Value :=
  more.entries.foldl (fun merged entry => merged.set entry.1 entry.2) record

/-- A record of entries in order: the last value of a key is its value. -/
def ofEntries (entries : List (Key × Value)) : Record Key Value :=
  entries.foldl (fun record entry => record.set entry.1 entry.2) empty

/-- The record without the keys that are not kept. -/
def only (record : Record Key Value) (keep : Key → Bool) : Record Key Value where
  entries := record.entries.filter fun entry => keep entry.1
  distinct := record.distinct.sublist (filter_sublist.map _)

/-- The record with each value made into another one. -/
def mapValues (record : Record Key Value) (make : Key → Value → Other) : Record Key Other where
  entries := record.entries.map fun entry => (entry.1, make entry.1 entry.2)
  distinct := by
    rw [List.map_map]
    exact record.distinct

/-! ### What a record gives -/

@[simp] theorem get_empty (key : Key) : (empty : Record Key Value).get key = none := rfl

theorem find_setEntries (key other : Key) (value : Value) (entries : List (Key × Value)) :
    ((setEntries key value entries).find? fun entry => entry.1 == other).map Prod.snd =
      if key = other then some value
      else (entries.find? fun entry => entry.1 == other).map Prod.snd := by
  induction entries with
  | nil =>
    unfold setEntries
    rw [find?_cons]
    by_cases same : key = other
    · rw [if_pos same, same, beq_self_eq_true]
      rfl
    · rw [if_neg same, beq_eq_false_iff_ne.mpr same]
  | cons entry entries inductionHypothesis =>
    unfold setEntries
    by_cases here : entry.1 = key
    · rw [if_pos here, find?_cons, find?_cons]
      by_cases same : key = other
      · rw [if_pos same, same, beq_self_eq_true]
        rfl
      · rw [if_neg same, here, beq_eq_false_iff_ne.mpr same]
    · rw [if_neg here, find?_cons, find?_cons]
      by_cases found : entry.1 = other
      · rw [found, beq_self_eq_true, if_neg fun same => here (found.trans same.symm)]
      · rw [beq_eq_false_iff_ne.mpr found]
        exact inductionHypothesis

theorem get_set (record : Record Key Value) (key other : Key) (value : Value) :
    (record.set key value).get other = if key = other then some value else record.get other :=
  find_setEntries key other value record.entries

@[simp] theorem get_set_self (record : Record Key Value) (key : Key) (value : Value) :
    (record.set key value).get key = some value := by
  rw [get_set, if_pos rfl]

variable {record : Record Key Value} {key : Key} {entries : List (Key × Value)}

theorem get_set_of_ne (record : Record Key Value) {other : Key} (value : Value)
    (different : key ≠ other) : (record.set key value).get other = record.get other := by
  rw [get_set, if_neg different]

theorem get_foldl_set (entries : List (Key × Value)) (record : Record Key Value) (key : Key) :
    (entries.foldl (fun merged entry => merged.set entry.1 entry.2) record).get key =
      ((entries.reverse.find? fun entry => entry.1 == key).map Prod.snd).or
        (record.get key) := by
  induction entries generalizing record with
  | nil => rfl
  | cons entry entries inductionHypothesis =>
    rw [foldl_cons, inductionHypothesis, get_set, reverse_cons, find?_append,
      find?_cons]
    by_cases here : entry.1 = key
    · rw [if_pos here, beq_iff_eq.mpr here]
      cases entries.reverse.find? fun entry => entry.1 == key with
      | none => rfl
      | some found => rfl
    · rw [if_neg here, beq_eq_false_iff_ne.mpr here, find?_nil, or_none]

/-- In a record, the last entry of a key is the only one. -/
theorem find_reverse (record : Record Key Value) (key : Key) :
    (record.entries.reverse.find? fun entry => entry.1 == key) =
      record.entries.find? fun entry => entry.1 == key := by
  obtain ⟨entries, distinct⟩ := record
  dsimp only
  induction entries with
  | nil => rfl
  | cons entry entries inductionHypothesis =>
    have rest := inductionHypothesis (nodup_cons.mp distinct).2
    rw [reverse_cons, find?_append, rest, find?_cons]
    by_cases here : entry.1 = key
    · have absent : (entries.find? fun entry => entry.1 == key) = none := by
        refine find?_eq_none.mpr fun other member same => ?_
        refine (nodup_cons.mp distinct).1 ?_
        rw [here, ← beq_iff_eq.mp same]
        exact List.mem_map_of_mem member
      rw [absent, find?_cons, beq_iff_eq.mpr here]
      rfl
    · rw [find?_cons, beq_eq_false_iff_ne.mpr here]
      exact or_none

theorem get_merge (record more : Record Key Value) (key : Key) :
    (record.merge more).get key = (more.get key).or (record.get key) := by
  unfold merge
  rw [get_foldl_set, find_reverse]
  rfl

theorem get_ofEntries (entries : List (Key × Value)) (key : Key) :
    (ofEntries entries).get key =
      (entries.reverse.find? fun entry => entry.1 == key).map Prod.snd :=
  (get_foldl_set entries empty key).trans or_none

theorem get_ofEntries_of_mem {value : Value} (member : (key, value) ∈ entries)
    (only_ : ∀ other, (key, other) ∈ entries → other = value) :
    (ofEntries entries).get key = some value := by
  rw [get_ofEntries]
  cases found : entries.reverse.find? fun entry => entry.1 == key with
  | none =>
    have missed := find?_eq_none.mp found (key, value) (mem_reverse.mpr member)
    exact absurd (beq_self_eq_true key) missed
  | some entry =>
    have hit := find?_some found
    have named : entry.1 = key := beq_iff_eq.mp hit
    have there := mem_reverse.mp (mem_of_find?_eq_some found)
    exact congrArg some (only_ entry.2 (named ▸ there))

theorem get_ofEntries_of_not_mem (missing : ∀ value, (key, value) ∉ entries) :
    (ofEntries entries).get key = none := by
  rw [get_ofEntries, find?_eq_none.mpr]
  · rfl
  · intro entry member same
    have named : entry.1 = key := beq_iff_eq.mp same
    exact missing entry.2 (named ▸ mem_reverse.mp member)

/-- A record made of items gives for a key what the last item with that key has. -/
theorem get_ofEntries_map {Item : Type} (items : List Item) (named : Item → Key)
    (valued : Item → Value) {same : Item → Bool}
    (here : ∀ item, same item = true ↔ named item = key) :
    (ofEntries (items.map fun item => (named item, valued item))).get key =
      (items.reverse.find? same).map valued := by
  have alike : ((fun entry : Key × Value => entry.1 == key) ∘
      fun item => (named item, valued item)) = same := by
    funext item
    rw [Bool.eq_iff_iff, here, Function.comp, beq_iff_eq]
  rw [get_ofEntries, ← map_reverse, find?_map, Option.map_map, alike]
  rfl

theorem get_only (record : Record Key Value) (keep : Key → Bool) (key : Key) :
    (record.only keep).get key = if keep key then record.get key else none := by
  obtain ⟨entries, distinct⟩ := record
  unfold get only
  dsimp only
  clear distinct
  induction entries with
  | nil => exact (ite_self none).symm
  | cons entry entries inductionHypothesis =>
    rw [filter_cons]
    by_cases here : entry.1 = key
    · rw [find?_cons, beq_iff_eq.mpr here, here]
      by_cases kept : keep key = true
      · rw [if_pos kept, if_pos kept, find?_cons, beq_iff_eq.mpr here]
      · rw [if_neg kept, inductionHypothesis, if_neg kept, if_neg kept]
    · rw [find?_cons, beq_eq_false_iff_ne.mpr here, ← inductionHypothesis]
      split
      · rw [find?_cons, beq_eq_false_iff_ne.mpr here]
      · rfl

/-- What a record of the entries of some items gives for a key depends on the items of that key. -/
theorem get_ofEntries_filterMap_congr {Item : Type} {items : List Item}
    {made remade : Item → Option (Key × Value)} {named : Item → Key}
    (own : ∀ item entry, made item = some entry → entry.1 = named item)
    (other : ∀ item entry, remade item = some entry → entry.1 = named item)
    (same : ∀ item ∈ items, named item = key → made item = remade item) :
    (ofEntries (items.filterMap made)).get key = (ofEntries (items.filterMap remade)).get key := by
  have missed : ∀ {make : Item → Option (Key × Value)},
      (∀ item entry, make item = some entry → entry.1 = named item) → ∀ item, named item ≠ key →
        (make item).any (fun entry => entry.1 == key) = false := by
    intro make owns item different
    cases entry : make item with
    | none => rfl
    | some entry_ =>
      rw [any_some, beq_eq_false_iff_ne, owns item entry_ entry]
      exact different
  rw [get_ofEntries, get_ofEntries, ← filterMap_reverse, ← filterMap_reverse,
    find?_filterMap, find?_filterMap]
  have inside : ∀ item ∈ items.reverse, named item = key → made item = remade item :=
    fun item member => same item (mem_reverse.mp member)
  generalize items.reverse = list at inside
  induction list with
  | nil => rfl
  | cons item list inductionHypothesis =>
    obtain ⟨here, there⟩ := forall_mem_cons.mp inside
    rw [find?_cons, find?_cons]
    by_cases is : named item = key
    · rw [here is]
      split
      · rw [bind_some, bind_some, here is]
      · exact inductionHypothesis there
    · rw [missed own item is, missed other item is]
      exact inductionHypothesis there

/-- The record without the keys whose value is nothing. -/
def compact (record : Record Key (Option Value)) : Record Key Value where
  entries := record.entries.filterMap fun entry => entry.2.map (entry.1, ·)
  distinct := by
    refine record.distinct.sublist ?_
    have kept : ∀ entries : List (Key × Option Value),
        ((entries.filterMap fun entry => entry.2.map (entry.1, ·)).map Prod.fst).Sublist
          (entries.map Prod.fst) := by
      intro entries
      induction entries with
      | nil => exact List.Sublist.slnil
      | cons entry entries inductionHypothesis =>
        obtain ⟨key, value⟩ := entry
        cases value with
        | none => exact inductionHypothesis.cons key
        | some value => exact inductionHypothesis.cons_cons key
    exact kept record.entries

theorem get_compact (record : Record Key (Option Value)) (key : Key) :
    record.compact.get key = (record.get key).join := by
  obtain ⟨entries, distinct⟩ := record
  unfold get compact
  dsimp only
  induction entries with
  | nil => rfl
  | cons entry entries inductionHypothesis =>
    obtain ⟨named, value⟩ := entry
    obtain ⟨fresh, rest⟩ := nodup_cons.mp distinct
    have kept : ∀ value : Value, ((named, some value) :: entries).filterMap
        (fun entry => entry.2.map (entry.1, ·)) =
          (named, value) :: entries.filterMap fun entry => entry.2.map (entry.1, ·) :=
      fun _ => rfl
    rw [find?_cons]
    by_cases here : named = key
    · rw [beq_iff_eq.mpr here]
      cases value with
      | none =>
        rw [filterMap_cons_none rfl, inductionHypothesis rest, find?_eq_none.mpr]
        · rfl
        · intro other member same
          exact fresh (List.mem_map.mpr ⟨other, member, (beq_iff_eq.mp same).trans here.symm⟩)
      | some value =>
        rw [kept, find?_cons, beq_iff_eq.mpr here]
        rfl
    · rw [beq_eq_false_iff_ne.mpr here]
      cases value with
      | none => exact inductionHypothesis rest
      | some value =>
        rw [kept, find?_cons, beq_eq_false_iff_ne.mpr here]
        exact inductionHypothesis rest

theorem mem_of_get {value : Value} (has : record.get key = some value) :
    (key, value) ∈ record.entries := by
  obtain ⟨entry, found, same⟩ := map_eq_some_iff.mp has
  have named := find?_some found
  rw [← beq_iff_eq.mp named, ← same]
  exact mem_of_find?_eq_some found

theorem get_of_mem {value : Value} (member : (key, value) ∈ record.entries) :
    record.get key = some value := by
  obtain ⟨front, back, parts⟩ := append_of_mem member
  have distinct := record.distinct
  rw [parts, map_append, nodup_append] at distinct
  unfold get
  rw [parts, find?_append, find?_eq_none.mpr, none_or, find?_cons_of_pos]
  · rfl
  · exact beq_self_eq_true key
  · intro entry inside same
    refine distinct.2.2 entry.1 (List.mem_map_of_mem inside) key ?_ (beq_iff_eq.mp same)
    exact mem_cons_self

theorem mem_setEntries {value : Value} {entry : Key × Value}
    (member : entry ∈ setEntries key value entries) :
    entry = (key, value) ∨ entry ∈ entries := by
  induction entries with
  | nil => exact Or.inl (mem_singleton.mp member)
  | cons first entries inductionHypothesis =>
    unfold setEntries at member
    split at member
    · exact (mem_cons.mp member).imp_right (mem_cons_of_mem _)
    · rcases mem_cons.mp member with rfl | there
      · exact Or.inr mem_cons_self
      · exact (inductionHypothesis there).imp_right (mem_cons_of_mem _)

theorem mem_foldl_set {entry : Key × Value}
    (member : entry ∈ (entries.foldl (fun merged one => merged.set one.1 one.2) record).entries) :
    entry ∈ entries ∨ entry ∈ record.entries := by
  induction entries generalizing record with
  | nil => exact Or.inr member
  | cons first entries inductionHypothesis =>
    rcases inductionHypothesis member with there | there
    · exact Or.inl (mem_cons_of_mem _ there)
    · rcases mem_setEntries there with rfl | before
      · exact Or.inl mem_cons_self
      · exact Or.inr before

/-- What a record made of entries has is one of them. -/
theorem mem_ofEntries {entry : Key × Value} (member : entry ∈ (ofEntries entries).entries) :
    entry ∈ entries :=
  (mem_foldl_set member).resolve_right not_mem_nil

theorem get_mapValues (record : Record Key Value) (make : Key → Value → Other) (key : Key) :
    (record.mapValues make).get key = (record.get key).map (make key) := by
  obtain ⟨entries, distinct⟩ := record
  unfold get mapValues
  dsimp only
  clear distinct
  induction entries with
  | nil => rfl
  | cons entry entries inductionHypothesis =>
    rw [map_cons, find?_cons, find?_cons]
    by_cases here : entry.1 = key
    · rw [beq_iff_eq.mpr here, ← here]
      rfl
    · rw [beq_eq_false_iff_ne.mpr here]
      exact inductionHypothesis

omit [DecidableEq Key] in
theorem keys_mapValues (record : Record Key Value) (make : Key → Value → Other) :
    (record.mapValues make).keys = record.keys := by
  unfold keys mapValues
  rw [List.map_map]
  rfl

theorem keys_set_of_mem (value : Value) (member : key ∈ record.keys) :
    (record.set key value).keys = record.keys :=
  (keys_setEntries key value record.entries).trans (if_pos member)

/-- Records of the same keys in the same order that give the same for each are the same. -/
theorem eq_of_get {first second : Record Key Value} (keys : first.keys = second.keys)
    (same : ∀ key, first.get key = second.get key) : first = second := by
  have entries : first.entries = second.entries := by
    refine ext_getElem ?_ fun index inFirst inSecond => ?_
    · have lengths := congrArg List.length keys
      unfold Record.keys at lengths
      rwa [length_map, length_map] at lengths
    · have named : first.entries[index].1 = second.entries[index].1 := by
        unfold Record.keys at keys
        have at_ := getElem_of_eq keys (i := index) (by rwa [length_map])
        rwa [getElem_map, getElem_map] at at_
      have one : first.get first.entries[index].1 = some first.entries[index].2 :=
        get_of_mem (getElem_mem inFirst)
      have other : second.get second.entries[index].1 = some second.entries[index].2 :=
        get_of_mem (getElem_mem inSecond)
      rw [named, same, other] at one
      exact Prod.ext named (some.inj one).symm
  cases first
  cases second
  cases entries
  rfl

theorem mem_keys_iff (record : Record Key Value) (key : Key) :
    key ∈ record.keys ↔ record.has key = true := by
  unfold keys has get
  rw [isSome_map, find?_isSome, List.mem_map]
  constructor
  · rintro ⟨entry, member, same⟩
    exact ⟨entry, member, beq_iff_eq.mpr same⟩
  · rintro ⟨entry, member, same⟩
    exact ⟨entry, member, beq_iff_eq.mp same⟩

/-- A new key goes behind the others. -/
theorem entries_set_of_get_none (value : Value) (missing : record.get key = none) :
    (record.set key value).entries = record.entries ++ [(key, value)] := by
  have absent : ∀ entry ∈ record.entries, entry.1 ≠ key := by
    intro entry member same
    have there : record.get key = some entry.2 := get_of_mem (same ▸ member)
    rw [missing] at there
    cases there
  show setEntries key value record.entries = _
  generalize record.entries = entries at absent
  induction entries with
  | nil => rfl
  | cons entry entries inductionHypothesis =>
    obtain ⟨here, there⟩ := forall_mem_cons.mp absent
    unfold setEntries
    rw [if_neg here, inductionHypothesis there, cons_append]

/-- What is read off the values stays as it is when a key is set to a value that reads the same. -/
theorem map_entries_set {old value : Value} (measure : Value → Other)
    (has : record.get key = some old) (same : measure value = measure old) :
    (record.set key value).entries.map (fun entry => measure entry.2) =
      record.entries.map fun entry => measure entry.2 := by
  unfold get at has
  show (setEntries key value record.entries).map _ = _
  generalize record.entries = entries at has
  induction entries with
  | nil => cases has
  | cons entry entries inductionHypothesis =>
    unfold setEntries
    rw [find?_cons] at has
    by_cases here : entry.1 = key
    · rw [beq_iff_eq.mpr here] at has
      rw [if_pos here, map_cons, map_cons, same, ← some.inj has]
    · rw [beq_eq_false_iff_ne.mpr here] at has
      rw [if_neg here, map_cons, map_cons, inductionHypothesis has]

end Record

/-! ### Lists whose elements have a label each at most -/

section Labels

variable {Item Label Part : Type} {label : Item → Option Label} {has : Item → Option Part}
  {labelOf : Part → Label}

theorem filterMap_sublist (labels : ∀ item part, has item = some part →
      label item = some (labelOf part)) (list : List Item) :
    ((list.filterMap has).map labelOf).Sublist (list.filterMap label) := by
  induction list with
  | nil => exact List.Sublist.slnil
  | cons item list inductionHypothesis =>
    cases part : has item with
    | none =>
      rw [filterMap_cons_none part]
      cases named : label item with
      | none => rwa [filterMap_cons_none named]
      | some name =>
        rw [filterMap_cons_some named]
        exact inductionHypothesis.cons _
    | some part_ =>
      rw [filterMap_cons_some part, map_cons,
        filterMap_cons_some (labels item part_ part)]
      exact inductionHypothesis.cons_cons _

/-- Where no label comes twice, what is found under an item's label is what the item has. -/
theorem find_filterMap [DecidableEq Label] (labels : ∀ item part, has item = some part →
      label item = some (labelOf part)) {list : List Item}
    (distinct : (list.filterMap label).Nodup) {item : Item} (member : item ∈ list) {name : Label}
    (named : label item = some name) :
    ((list.filterMap has).find? fun part => labelOf part == name) = has item := by
  induction list with
  | nil => cases member
  | cons first list inductionHypothesis =>
    have later : ∀ other ∈ list, ∀ same, label other = some same →
        label first ≠ some same := by
      intro other there same otherNamed firstNamed
      rw [filterMap_cons_some firstNamed] at distinct
      exact (nodup_cons.mp distinct).1 (mem_filterMap.mpr ⟨other, there, otherNamed⟩)
    have rest : (list.filterMap label).Nodup := by
      cases firstNamed : label first with
      | none => rwa [filterMap_cons_none firstNamed] at distinct
      | some same =>
        rw [filterMap_cons_some firstNamed] at distinct
        exact (nodup_cons.mp distinct).2
    rcases mem_cons.mp member with rfl | there
    · cases part : has item with
      | none =>
        rw [filterMap_cons_none part]
        refine find?_eq_none.mpr fun other found same => ?_
        obtain ⟨one, oneThere, its⟩ := mem_filterMap.mp found
        refine later one oneThere name ?_ named
        rw [labels one other its, beq_iff_eq.mp same]
      | some part_ =>
        have same : labelOf part_ = name := some.inj ((labels _ _ part).symm.trans named)
        rw [filterMap_cons_some part, find?_cons, beq_iff_eq.mpr same]
    · have different := later item there name named
      cases part : has first with
      | none =>
        rw [filterMap_cons_none part]
        exact inductionHypothesis rest there
      | some part_ =>
        have other : labelOf part_ ≠ name := fun same =>
          different (same ▸ labels _ _ part)
        rw [filterMap_cons_some part, find?_cons, beq_eq_false_iff_ne.mpr other]
        exact inductionHypothesis rest there

end Labels

end Text
