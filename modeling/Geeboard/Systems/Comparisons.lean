/-
This file is about sorting by a comparison that answers with a number.

A comparison is below zero when the first comes before the second. Whether it
orders anything is a question about the members at hand: turned round it has to
change its sign, and it has to be transitive among them. A sort owes an order
only to a comparison that is one there. Under it, and with no two members level,
the sorted list is the same whatever order the members came in; without it, a
sort may put any of them first, or leave them as they came.
-/

import Mathlib.Data.List.Sort

namespace Systems

open List

variable {Element : Type}

/-- A comparison orders some members. -/
structure Orders (compare : Element → Element → Int) (members : List Element) : Prop where
  swap : ∀ first ∈ members, ∀ second ∈ members, compare second first < 0 ↔ 0 < compare first second
  trans : ∀ first ∈ members, ∀ second ∈ members, ∀ third ∈ members,
    compare first second ≤ 0 → compare second third ≤ 0 → compare first third ≤ 0

/-- No two members are level. -/
def Apart (compare : Element → Element → Int) (members : List Element) : Prop :=
  ∀ first ∈ members, ∀ second ∈ members, compare first second = 0 → first = second

/-- A comparison, and another one where it cannot tell. -/
def thenBy (first second : Element → Element → Int) (left right : Element) : Int :=
  if first left right = 0 then second left right else first left right

variable {compare first second : Element → Element → Int} {members others : List Element}

/-! ### Comparisons -/

theorem Orders.mono (orders : Orders compare members) (among : others ⊆ members) :
    Orders compare others where
  swap left leftIn right rightIn := orders.swap left (among leftIn) right (among rightIn)
  trans left leftIn middle middleIn right rightIn :=
    orders.trans left (among leftIn) middle (among middleIn) right (among rightIn)

theorem Orders.total (orders : Orders compare members) {left right : Element}
    (leftIn : left ∈ members) (rightIn : right ∈ members) :
    compare left right ≤ 0 ∨ compare right left ≤ 0 := by
  by_cases ahead : compare left right ≤ 0
  · exact Or.inl ahead
  · exact Or.inr (le_of_lt ((orders.swap left leftIn right rightIn).mpr (not_le.mp ahead)))

theorem Orders.level (orders : Orders compare members) {left right : Element}
    (leftIn : left ∈ members) (rightIn : right ∈ members) :
    compare left right = 0 ↔ compare left right ≤ 0 ∧ compare right left ≤ 0 := by
  have turned := orders.swap left leftIn right rightIn
  have back := orders.swap right rightIn left leftIn
  omega

theorem Orders.self (orders : Orders compare members) {member : Element}
    (memberIn : member ∈ members) : compare member member = 0 := by
  have turned := orders.swap member memberIn member memberIn
  omega

/-- Two comparisons that order the members order them one after the other. -/
theorem Orders.thenBy (orders : Orders first members) (ties : Orders second members) :
    Orders (thenBy first second) members where
  swap left leftIn right rightIn := by
    have turned := orders.swap left leftIn right rightIn
    have back := orders.swap right rightIn left leftIn
    have tie := ties.swap left leftIn right rightIn
    unfold Systems.thenBy
    split <;> split <;> omega
  trans left leftIn middle middleIn right rightIn near far := by
    have forth := orders.trans left leftIn middle middleIn right rightIn
    have back := orders.trans right rightIn left leftIn middle middleIn
    have round := orders.trans middle middleIn right rightIn left leftIn
    have tie := ties.trans left leftIn middle middleIn right rightIn
    have leftMiddle := orders.level leftIn middleIn
    have middleRight := orders.level middleIn rightIn
    have leftRight := orders.level leftIn rightIn
    have turned := orders.swap left leftIn right rightIn
    unfold Systems.thenBy at near far ⊢
    split at near <;> split at far <;> split <;> omega

/-! ### Sorts -/

/-- A sort: it drops and adds nothing, and it owes an order to a comparison that is one. -/
structure ArraySort (Element : Type) where
  sort : (Element → Element → Int) → List Element → List Element
  perm : ∀ compare members, (sort compare members).Perm members
  sorted : ∀ compare members, Orders compare members →
    (sort compare members).Pairwise fun first second => compare first second ≤ 0

@[simp] theorem ArraySort.mem_sort (sort : ArraySort Element) {member : Element} :
    member ∈ sort.sort compare members ↔ member ∈ members :=
  (sort.perm compare members).mem_iff

/-- The first of the sorted members has none before it. -/
theorem ArraySort.head_le (sort : ArraySort Element) (orders : Orders compare members)
    {head member : Element} (leads : (sort.sort compare members).head? = some head)
    (memberIn : member ∈ members) : compare head member ≤ 0 := by
  obtain ⟨rest, split⟩ := head?_eq_some_iff.mp leads
  have sorted := sort.sorted compare members orders
  have among := (sort.perm compare members).mem_iff.mpr memberIn
  have headIn : head ∈ members := sort.mem_sort.mp (split ▸ mem_cons_self)
  rw [split] at sorted among
  obtain rfl | later := mem_cons.mp among
  · exact le_of_eq (orders.self headIn)
  · exact rel_of_pairwise_cons sorted later

/-- Members none of which are level come out in one order only. -/
theorem ArraySort.sort_eq_of_perm (sort : ArraySort Element) (orders : Orders compare members)
    (apart : Apart compare members) (same : others.Perm members) :
    sort.sort compare others = sort.sort compare members := by
  have ordersOthers : Orders compare others := orders.mono same.subset
  refine Perm.eq_of_pairwise ?_ (sort.sorted compare others ordersOthers)
    (sort.sorted compare members orders)
    ((sort.perm compare others).trans (same.trans (sort.perm compare members).symm))
  intro left right leftIn rightIn near far
  have leftIn := same.subset (sort.mem_sort.mp leftIn)
  have rightIn := sort.mem_sort.mp rightIn
  exact apart left leftIn right rightIn ((orders.level leftIn rightIn).mpr ⟨near, far⟩)

/-! ### Inserting one after the other -/

open Classical in
/-- A comparison of some members for every element there is: the members come first. -/
private def AmongFirst (compare : Element → Element → Int) (members : List Element)
    (left right : Element) : Prop :=
  if left ∈ members ∧ right ∈ members then compare left right ≤ 0 else right ∉ members

private theorem amongFirst_total (orders : Orders compare members) :
    Std.Total (AmongFirst compare members) where
  total left right := by
    unfold AmongFirst
    by_cases leftIn : left ∈ members <;> by_cases rightIn : right ∈ members <;>
      simp only [leftIn, rightIn, and_self, and_true, and_false, if_true, if_false,
        not_true_eq_false, not_false_eq_true, or_false, or_true, or_self]
    exact orders.total leftIn rightIn

private theorem amongFirst_trans (orders : Orders compare members) :
    IsTrans Element (AmongFirst compare members) where
  trans left middle right near far := by
    unfold AmongFirst at near far ⊢
    by_cases leftIn : left ∈ members <;> by_cases middleIn : middle ∈ members <;>
      by_cases rightIn : right ∈ members <;>
      simp only [leftIn, middleIn, rightIn, and_self, and_true, and_false, if_true, if_false,
        not_true_eq_false, not_false_eq_true] at near far ⊢
    exact orders.trans left leftIn middle middleIn right rightIn near far

private theorem insertionSort_eq (compare : Element → Element → Int) (members : List Element) :
    members.insertionSort (fun left right => compare left right ≤ 0) =
      @List.insertionSort _ (AmongFirst compare members) (Classical.decRel _) members := by
  classical
  have alike := map_insertionSort (fun left right => compare left right ≤ 0)
    (AmongFirst compare members) id members fun left leftIn right rightIn => by
      unfold AmongFirst
      rw [id, id, if_pos ⟨leftIn, rightIn⟩]
  rw [List.map_id, List.map_id] at alike
  convert alike

theorem pairwise_insertionSort (orders : Orders compare members) :
    (members.insertionSort fun left right => compare left right ≤ 0).Pairwise
      fun left right => compare left right ≤ 0 := by
  have sorted : (members.insertionSort fun left right => compare left right ≤ 0).Pairwise
      (AmongFirst compare members) := by
    rw [insertionSort_eq]
    have := amongFirst_total orders
    have := amongFirst_trans orders
    let _ := Classical.decRel (AmongFirst compare members)
    exact List.pairwise_insertionSort _ _
  refine sorted.imp_of_mem fun leftIn rightIn before => ?_
  unfold AmongFirst at before
  rwa [if_pos ⟨(perm_insertionSort _ _).subset leftIn,
    (perm_insertionSort _ _).subset rightIn⟩] at before

/-- The sort that inserts one member after the other. -/
def ArraySort.insertion : ArraySort Element where
  sort compare members := members.insertionSort fun left right => compare left right ≤ 0
  perm _ _ := perm_insertionSort _ _
  sorted _ _ orders := pairwise_insertionSort orders

open Classical in
/-- A sort that leaves members alone which the comparison does not order. -/
noncomputable def ArraySort.idle : ArraySort Element where
  sort compare members :=
    if Orders compare members then ArraySort.insertion.sort compare members else members
  perm compare members := by
    split
    · exact ArraySort.insertion.perm compare members
    · exact List.Perm.refl _
  sorted compare members orders := by
    rw [if_pos orders]
    exact ArraySort.insertion.sorted compare members orders

/-- A sort that sees its members by the answers of the comparison alone. -/
structure BlindSort (Element : Type) extends ArraySort Element where
  blind : ∀ (change : Element → Element) compare members,
    (∀ first ∈ members, ∀ second ∈ members,
      compare (change first) (change second) = compare first second) →
    sort compare (members.map change) = (sort compare members).map change

/-- Inserting one member after the other sees no more. -/
def BlindSort.insertion : BlindSort Element where
  toArraySort := ArraySort.insertion
  blind change compare members same := by
    refine (map_insertionSort (fun left right => compare left right ≤ 0)
      (fun left right => compare left right ≤ 0) change members fun left leftIn right rightIn => ?_).symm
    rw [same left leftIn right rightIn]

/-- Nothing has to come before this member: either the members are in no order, or none is ahead. -/
def MayLead (compare : Element → Element → Int) (members : List Element) (member : Element) :
    Prop :=
  member ∈ members ∧ (Orders compare members → ∀ other ∈ members, compare member other ≤ 0)

theorem ArraySort.mayLead_of_head? (sort : ArraySort Element) {head : Element}
    (leads : (sort.sort compare members).head? = some head) : MayLead compare members head :=
  ⟨sort.mem_sort.mp (mem_of_mem_head? leads),
    fun orders _ memberIn => sort.head_le orders leads memberIn⟩

open Classical in
/-- A sort that puts a member with a property first wherever one may be. -/
noncomputable def ArraySort.leading (property : Element → Prop) : ArraySort Element where
  sort compare members :=
    if leads : ∃ member, MayLead compare members member ∧ property member then
      leads.choose :: ArraySort.insertion.sort compare (members.erase leads.choose)
    else ArraySort.insertion.sort compare members
  perm compare members := by
    split
    case isTrue leads =>
      have memberIn := leads.choose_spec.1.1
      exact ((ArraySort.insertion.perm compare _).cons _).trans (perm_cons_erase memberIn).symm
    case isFalse => exact ArraySort.insertion.perm compare members
  sorted compare members orders := by
    split
    case isTrue leads =>
      have fewer : members.erase leads.choose ⊆ members := erase_subset
      refine List.Pairwise.cons (fun member memberIn => ?_)
        (ArraySort.insertion.sorted compare _ (orders.mono fewer))
      exact leads.choose_spec.1.2 orders member (fewer (ArraySort.insertion.mem_sort.mp memberIn))
    case isFalse => exact ArraySort.insertion.sorted compare members orders

/-- It does put one first. -/
theorem ArraySort.head?_leading {property : Element → Prop} {member : Element}
    (leads : MayLead compare members member) (has : property member) :
    ∃ head, ((ArraySort.leading property).sort compare members).head? = some head ∧
      property head := by
  have any : ∃ member, MayLead compare members member ∧ property member := ⟨member, leads, has⟩
  refine ⟨any.choose, ?_, any.choose_spec.2⟩
  simp only [leading]
  rw [dif_pos any, head?_cons]

end Systems
