/-
This file is about how often the things in an accepted expression repeat.

The nesting rule looks at one group at a time and at a summary of what is inside.
What it bounds is one level: a group with something unbounded in it repeats three
times at most, but so may a group around that; and where something inside has no
bound, the finite repetitions beside it are not multiplied out. The bounds hold along
every path of groups exactly when no two such groups are around one another and the
product is within the bound there too.
-/

import Geeboard.Games.SafeRegex
import Mathlib.Algebra.BigOperators.Group.List.Basic
import Mathlib.Algebra.Order.BigOperators.Group.List

namespace Geeboard.Games.SafeRegex

open List

/-! ### Paths of nested groups -/

/-- One thing in a branch. -/
inductive Item where
  | atom (quant : Option Quantifier)
  | group (quant : Option Quantifier) (body : Alternation)

def Item.quant : Item → Option Quantifier
  | .atom quant => quant
  | .group quant _ => quant

/-- The things in the branches of an alternation. -/
def Alternation.items : Alternation → List Item
  | .done => []
  | .bar rest => rest.items
  | .atom quant rest => .atom quant :: rest.items
  | .group quant body rest => .group quant body :: rest.items

/-- Whether an alternation has more than one branch. -/
def Alternation.branches : Alternation → Bool
  | .done => false
  | .bar _ => true
  | .atom _ rest => rest.branches
  | .group _ _ rest => rest.branches

/-- Things of which each one holds the next, from an alternation on. -/
def Path : Alternation → List Item → Prop
  | _, [] => True
  | alternation, item :: rest =>
    item ∈ alternation.items ∧
      match item with
      | .atom _ => rest = []
      | .group _ body => Path body rest

/-- How often a thing repeats, as far as it is bounded. -/
def Item.times (item : Item) : Nat := (own item.quant).getD 1

/-- Whether a thing is a group with an alternation in it. -/
def Item.alternates : Item → Bool
  | .atom _ => false
  | .group _ body => body.branches

/-- Whether a thing repeats, with a bound. -/
def Item.counts (item : Item) : Bool := repeats item.quant && !hasNoBound item.quant

/-- The bounds along every path of nested groups. -/
structure Bounded (tree : Alternation) : Prop where
  /-- What has no bound lies in groups whose repetitions multiply to three at most. -/
  few : ∀ before groups last, Path tree (before ++ groups ++ [last]) →
    hasNoBound last.quant = true →
      (∀ group ∈ groups, hasNoBound group.quant = false) ∧ (groups.map Item.times).prod ≤ 3
  /-- A group without a bound holds nothing that repeats, and no alternation. -/
  alone : ∀ before group rest, Path tree (before ++ group :: rest) →
    hasNoBound group.quant = true →
      (∀ item ∈ rest, repeats item.quant = false) ∧
        ∀ item ∈ group :: rest, item.alternates = false
  /-- Finite repetitions of nested quantifiers multiply to sixty-four at most. -/
  product : ∀ before items, Path tree (before ++ items) → 2 ≤ items.countP Item.counts →
    (items.map Item.times).prod ≤ MAX_NESTED_REPETITIONS

/-- What the nesting rule leaves out. -/
structure Spread (tree : Alternation) : Prop where
  /-- Of two groups that repeat around something unbounded, one is repeated no time, or one
  between. -/
  apart : ∀ before outer between inner after last,
    Path tree (before ++ outer :: between ++ inner :: after ++ [last]) →
      hasNoBound last.quant = true → repeats outer.quant = true → repeats inner.quant = true →
        ∃ item ∈ between ++ after, item.times = 0
  /-- A group that repeats with something unbounded and something finite in it repeats within the
  bound for finite ones. -/
  beside : ∀ before quant body most, Path tree (before ++ [.group quant body]) →
    own quant = some most → 1 < most → (inside body).unbounded = true → 1 < repetitions body →
      most * repetitions body ≤ MAX_NESTED_REPETITIONS

/-! ### Quantifiers -/

variable {quant : Option Quantifier} {body alternation tree : Alternation}

theorem repeats_of_hasNoBound (unbounded : hasNoBound quant = true) : repeats quant = true := by
  obtain ⟨bounds, rfl, none⟩ := (Option.any_eq_true _ _).mp unbounded
  unfold repeats
  rw [Option.any_some, Option.isNone_iff_eq_none.mp none, Option.all_none]

theorem own_of_bounded (bounded : hasNoBound quant = false) : ∃ most, own quant = some most := by
  rcases quant with _ | bounds
  · exact ⟨1, rfl⟩
  · rcases isMax : bounds.max with _ | most
    · unfold hasNoBound at bounded
      rw [Option.any_some, isMax] at bounded
      cases bounded
    · exact ⟨most, isMax⟩

theorem own_none_iff : own quant = none ↔ hasNoBound quant = true := by
  rcases quant with _ | bounds
  · exact iff_of_false (Option.some_ne_none 1) nofun
  · exact Option.isNone_iff_eq_none.symm

theorem repeats_iff {most : Nat} (isOwn : own quant = some most) :
    repeats quant = true ↔ 1 < most := by
  rcases quant with _ | bounds
  · obtain rfl := Option.some.inj isOwn
    exact iff_of_false nofun (lt_irrefl 1)
  · have isMax : bounds.max = some most := isOwn
    unfold repeats
    rw [Option.any_some, isMax, Option.all_some, decide_eq_true_iff]

variable {items before : List Item} {item : Item}

/-- What does not repeat, or has no bound, is no factor. -/
theorem times_le_one (still : item.counts = false) : item.times ≤ 1 := by
  unfold Item.times
  rcases isOwn : own item.quant with _ | most
  · exact le_refl 1
  · unfold Item.counts at still
    have bounded : hasNoBound item.quant = false := by
      by_contra unbounded
      rw [own_none_iff.mpr (Bool.eq_true_of_not_eq_false unbounded)] at isOwn
      cases isOwn
    rw [bounded, Bool.not_false, Bool.and_true] at still
    have notMore : ¬ 1 < most := fun more => by
      rw [(repeats_iff isOwn).mpr more] at still
      cases still
    exact not_lt.mp notMore

theorem counts_of_repeats (bounded : hasNoBound item.quant = false)
    (again : repeats item.quant = true) : item.counts = true ∧ 1 < item.times := by
  obtain ⟨most, isOwn⟩ := own_of_bounded bounded
  unfold Item.counts Item.times
  rw [bounded, again, isOwn]
  exact ⟨rfl, (repeats_iff isOwn).mp again⟩

theorem prod_le_one (each : ∀ item ∈ items, item.times ≤ 1) :
    (items.map Item.times).prod ≤ 1 := by
  induction items with
  | nil => exact le_refl 1
  | cons item items inductionHypothesis =>
    obtain ⟨here, there⟩ := forall_mem_cons.mp each
    rw [map_cons, prod_cons]
    exact Nat.mul_le_mul here (inductionHypothesis there)

theorem one_le_prod (each : ∀ item ∈ items, item.times ≠ 0) :
    1 ≤ (items.map Item.times).prod := by
  induction items with
  | nil => exact le_refl 1
  | cons item items inductionHypothesis =>
    obtain ⟨here, there⟩ := forall_mem_cons.mp each
    rw [map_cons, prod_cons]
    exact Nat.mul_pos (Nat.pos_of_ne_zero here) (inductionHypothesis there)

theorem times_group {most : Nat} (isOwn : own quant = some most) :
    (Item.group quant body).times = most := by
  unfold Item.times
  rw [show (Item.group quant body).quant = quant from rfl, isOwn, Option.getD_some]

/-! ### Paths -/

theorem mem_items_checked (checked : checkNesting alternation = none)
    (itemIn : .group quant body ∈ alternation.items) :
    groupProblem quant body = none ∧ checkNesting body = none := by
  induction alternation with
  | done => cases itemIn
  | bar rest inductionHypothesis => exact inductionHypothesis checked itemIn
  | atom other rest inductionHypothesis =>
    obtain same | later := mem_cons.mp itemIn
    · cases same
    · exact inductionHypothesis checked later
  | group other inner rest _ inductionHypothesis =>
    obtain ⟨here, checkedMore⟩ := Option.or_eq_none_iff.mp checked
    obtain ⟨checkedInner, checkedRest⟩ := Option.or_eq_none_iff.mp checkedMore
    obtain same | later := mem_cons.mp itemIn
    · obtain ⟨rfl, rfl⟩ := Item.group.inj same
      exact ⟨here, checkedInner⟩
    · exact inductionHypothesis checkedRest later

/-- What follows on a path is a path from an alternation that is checked too. -/
theorem path_tail (path : Path tree (before ++ items)) (checked : checkNesting tree = none) :
    ∃ inner, checkNesting inner = none ∧ Path inner items := by
  induction before generalizing tree with
  | nil => exact ⟨tree, checked, path⟩
  | cons item before inductionHypothesis =>
    obtain ⟨itemIn, path⟩ := path
    cases item with
    | atom quant =>
      have none : before ++ items = [] := path
      obtain ⟨-, rfl⟩ := append_eq_nil_iff.mp none
      exact ⟨.done, rfl, trivial⟩
    | group quant body => exact inductionHypothesis path (mem_items_checked checked itemIn).2

theorem path_init {rest : List Item} (path : Path tree (items ++ rest)) :
    Path tree items := by
  induction items generalizing tree with
  | nil => trivial
  | cons item items inductionHypothesis =>
    obtain ⟨itemIn, path⟩ := path
    refine ⟨itemIn, ?_⟩
    cases item with
    | atom quant =>
      have none : items ++ rest = [] := path
      exact (append_eq_nil_iff.mp none).1
    | group quant body => exact inductionHypothesis path

/-- A path to a group goes on inside it. -/
theorem path_append (path : Path tree (before ++ [.group quant body])) (inside : Path body items) :
    Path tree (before ++ .group quant body :: items) := by
  induction before generalizing tree with
  | nil => exact ⟨path.1, inside⟩
  | cons item before inductionHypothesis =>
    obtain ⟨itemIn, path⟩ := path
    refine ⟨itemIn, ?_⟩
    cases item with
    | atom other =>
      have none : before ++ [.group quant body] = [] := path
      exact absurd (append_eq_nil_iff.mp none).2 (cons_ne_nil _ _)
    | group other inner => exact inductionHypothesis path

/-! ### What is inside -/

theorem inside_group (rest : Alternation) :
    inside (.group quant body rest) =
      ⟨repeats quant || (inside body).repeats || (inside rest).repeats,
        hasNoBound quant || (inside body).unbounded || (inside rest).unbounded,
        (inside body).alternates || (inside rest).alternates⟩ := rfl

theorem inside_item (itemIn : item ∈ alternation.items) :
    (repeats item.quant = true → (inside alternation).repeats = true) ∧
      (hasNoBound item.quant = true → (inside alternation).unbounded = true) := by
  induction alternation with
  | done => cases itemIn
  | bar rest inductionHypothesis => exact inductionHypothesis itemIn
  | atom other rest inductionHypothesis =>
    unfold inside
    obtain rfl | later := mem_cons.mp itemIn
    · refine ⟨fun again => ?_, fun unbounded => ?_⟩
      · exact Bool.or_eq_true_iff.mpr (Or.inl again)
      · exact Bool.or_eq_true_iff.mpr (Or.inl unbounded)
    · obtain ⟨again, unbounded⟩ := inductionHypothesis later
      exact ⟨fun has => Bool.or_eq_true_iff.mpr (Or.inr (again has)),
        fun has => Bool.or_eq_true_iff.mpr (Or.inr (unbounded has))⟩
  | group other inner rest _ inductionHypothesis =>
    rw [inside_group, Bool.or_assoc, Bool.or_assoc]
    obtain rfl | later := mem_cons.mp itemIn
    · refine ⟨fun again => ?_, fun unbounded => ?_⟩
      · exact Bool.or_eq_true_iff.mpr (Or.inl again)
      · exact Bool.or_eq_true_iff.mpr (Or.inl unbounded)
    · obtain ⟨again, unbounded⟩ := inductionHypothesis later
      refine ⟨fun has => ?_, fun has => ?_⟩
      · exact Bool.or_eq_true_iff.mpr (Or.inr (Bool.or_eq_true_iff.mpr (Or.inr (again has))))
      · exact Bool.or_eq_true_iff.mpr (Or.inr (Bool.or_eq_true_iff.mpr (Or.inr (unbounded has))))

theorem inside_body (itemIn : .group quant body ∈ alternation.items) :
    ((inside body).repeats = true → (inside alternation).repeats = true) ∧
      ((inside body).unbounded = true → (inside alternation).unbounded = true) ∧
      ((inside body).alternates = true → (inside alternation).alternates = true) := by
  induction alternation with
  | done => cases itemIn
  | bar rest inductionHypothesis =>
    obtain ⟨again, unbounded, -⟩ := inductionHypothesis itemIn
    exact ⟨again, unbounded, fun _ => rfl⟩
  | atom other rest inductionHypothesis =>
    obtain same | later := mem_cons.mp itemIn
    · cases same
    · obtain ⟨again, unbounded, alternates⟩ := inductionHypothesis later
      exact ⟨fun has => Bool.or_eq_true_iff.mpr (Or.inr (again has)),
        fun has => Bool.or_eq_true_iff.mpr (Or.inr (unbounded has)), alternates⟩
  | group other inner rest _ inductionHypothesis =>
    rw [inside_group]
    obtain same | later := mem_cons.mp itemIn
    · obtain ⟨rfl, rfl⟩ := Item.group.inj same
      refine ⟨fun has => ?_, fun has => ?_, fun has => ?_⟩
      · show (_ || _ || _) = true
        rw [has, Bool.or_true, Bool.true_or]
      · show (_ || _ || _) = true
        rw [has, Bool.or_true, Bool.true_or]
      · show (_ || _) = true
        rw [has, Bool.true_or]
    · obtain ⟨again, unbounded, alternates⟩ := inductionHypothesis later
      refine ⟨fun has => ?_, fun has => ?_, fun has => ?_⟩
      · exact Bool.or_eq_true_iff.mpr (Or.inr (again has))
      · exact Bool.or_eq_true_iff.mpr (Or.inr (unbounded has))
      · exact Bool.or_eq_true_iff.mpr (Or.inr (alternates has))

theorem alternates_of_branches (more : alternation.branches = true) :
    (inside alternation).alternates = true := by
  induction alternation with
  | done => cases more
  | bar rest _ => rfl
  | atom other rest inductionHypothesis => exact inductionHypothesis more
  | group other inner rest _ inductionHypothesis =>
    exact Bool.or_eq_true_iff.mpr (Or.inr (inductionHypothesis more))

/-- What stands on a path is inside the alternation it begins in. -/
theorem inside_path (path : Path alternation items) (itemIn : item ∈ items) :
    (repeats item.quant = true → (inside alternation).repeats = true) ∧
      (hasNoBound item.quant = true → (inside alternation).unbounded = true) ∧
      (item.alternates = true → (inside alternation).alternates = true) := by
  induction items generalizing alternation with
  | nil => cases itemIn
  | cons head items inductionHypothesis =>
    obtain ⟨headIn, path⟩ := path
    obtain rfl | later := mem_cons.mp itemIn
    · obtain ⟨again, unbounded⟩ := inside_item headIn
      refine ⟨again, unbounded, fun alternates => ?_⟩
      cases item with
      | atom other => cases alternates
      | group other inner => exact (inside_body headIn).2.2 (alternates_of_branches alternates)
    · cases head with
      | atom other =>
        have none : items = [] := path
        rw [none] at later
        cases later
      | group other inner =>
        obtain ⟨again, unbounded, alternates⟩ := inductionHypothesis path later
        obtain ⟨againOut, unboundedOut, alternatesOut⟩ := inside_body headIn
        exact ⟨againOut ∘ again, unboundedOut ∘ unbounded, alternatesOut ∘ alternates⟩

/-! ### What the rule says of one group -/

theorem group_alone (allowed : groupProblem quant body = none)
    (unbounded : hasNoBound quant = true) :
    (inside body).repeats = false ∧ (inside body).alternates = false := by
  obtain ⟨bounds, rfl, none⟩ := (Option.any_eq_true _ _).mp unbounded
  unfold groupProblem at allowed
  dsimp only at allowed
  rw [Option.isNone_iff_eq_none.mp none] at allowed
  dsimp only at allowed
  split at allowed
  · cases allowed
  case isFalse still =>
    split at allowed
    · cases allowed
    case isFalse single =>
      exact ⟨Bool.eq_false_of_not_eq_true still, Bool.eq_false_of_not_eq_true single⟩

theorem group_bounded (allowed : groupProblem quant body = none) {most : Nat}
    (isOwn : own quant = some most) :
    ((inside body).unbounded = true → most ≤ 3) ∧
      (1 < most → (inside body).repeats = true → (inside body).unbounded = false →
        most * repetitions body ≤ MAX_NESTED_REPETITIONS) := by
  rcases quant with _ | bounds
  · obtain rfl := Option.some.inj isOwn
    exact ⟨fun _ => by decide, fun more => absurd more (lt_irrefl 1)⟩
  · have isMax : bounds.max = some most := isOwn
    unfold groupProblem at allowed
    dsimp only at allowed
    rw [isMax] at allowed
    dsimp only at allowed
    split at allowed
    · cases allowed
    case isFalse few =>
      split at allowed
      · cases allowed
      case isFalse within =>
        rw [Bool.and_eq_true_iff, decide_eq_true_iff] at few
        refine ⟨fun unbounded => not_lt.mp fun more => few ⟨more, unbounded⟩,
          fun more again bounded => not_lt.mp fun above => within ?_⟩
        rw [again, bounded, decide_eq_true more, decide_eq_true above]
        rfl

/-! ### The rule along a path -/

theorem one_le_repetitions (alternation : Alternation) : 1 ≤ repetitions alternation := by
  induction alternation with
  | done => exact le_refl 1
  | bar rest inductionHypothesis => exact inductionHypothesis
  | atom quant rest inductionHypothesis => exact le_max_of_le_right inductionHypothesis
  | group quant body rest _ inductionHypothesis => exact le_max_of_le_right inductionHypothesis

theorem atom_le_repetitions (itemIn : .atom quant ∈ alternation.items) :
    (own quant).getD 1 ≤ repetitions alternation := by
  induction alternation with
  | done => cases itemIn
  | bar rest inductionHypothesis => exact inductionHypothesis itemIn
  | atom other rest inductionHypothesis =>
    obtain same | later := mem_cons.mp itemIn
    · cases same
      exact le_max_left _ _
    · exact le_max_of_le_right (inductionHypothesis later)
  | group other inner rest _ inductionHypothesis =>
    obtain same | later := mem_cons.mp itemIn
    · cases same
    · exact le_max_of_le_right (inductionHypothesis later)

theorem repetitions_group (rest : Alternation) :
    repetitions (.group quant body rest) =
      max (((own quant).map (· * repetitions body)).getD 1) (repetitions rest) := rfl

theorem group_le_repetitions {most : Nat} (itemIn : .group quant body ∈ alternation.items)
    (isOwn : own quant = some most) : most * repetitions body ≤ repetitions alternation := by
  induction alternation with
  | done => cases itemIn
  | bar rest inductionHypothesis => exact inductionHypothesis itemIn
  | atom other rest inductionHypothesis =>
    obtain same | later := mem_cons.mp itemIn
    · cases same
    · exact le_max_of_le_right (inductionHypothesis later)
  | group other inner rest _ inductionHypothesis =>
    obtain same | later := mem_cons.mp itemIn
    · obtain ⟨rfl, rfl⟩ := Item.group.inj same
      rw [repetitions_group, isOwn, Option.map_some, Option.getD_some]
      exact le_max_left _ _
    · exact le_max_of_le_right (inductionHypothesis later)

/-- In a group without a bound nothing on a path repeats, and no group alternates. -/
theorem alone_on_path (checked : checkNesting alternation = none) {group : Item}
    {rest : List Item} (path : Path alternation (group :: rest))
    (unbounded : hasNoBound group.quant = true) :
    (∀ item ∈ rest, repeats item.quant = false) ∧
      ∀ item ∈ group :: rest, item.alternates = false := by
  obtain ⟨groupIn, path⟩ := path
  cases group with
  | atom quant =>
    have none : rest = [] := path
    rw [none]
    refine ⟨fun item itemIn => ?_, fun item itemIn => ?_⟩
    · cases itemIn
    · rw [mem_singleton.mp itemIn]
      rfl
  | group quant body =>
    obtain ⟨allowed, -⟩ := mem_items_checked checked groupIn
    obtain ⟨still, single⟩ := group_alone allowed unbounded
    have quiet (item : Item) (itemIn : item ∈ rest) :
        repeats item.quant = false ∧ item.alternates = false := by
      obtain ⟨again, -, alternates⟩ := inside_path path itemIn
      constructor
      · by_contra more
        rw [again (Bool.eq_true_of_not_eq_false more)] at still
        cases still
      · by_contra more
        rw [alternates (Bool.eq_true_of_not_eq_false more)] at single
        cases single
    refine ⟨fun item itemIn => (quiet item itemIn).1, fun item itemIn => ?_⟩
    obtain rfl | later := mem_cons.mp itemIn
    · by_contra more
      rw [alternates_of_branches (Bool.eq_true_of_not_eq_false more)] at single
      cases single
    · exact (quiet item later).2

/-- The finite repetitions on a path are counted. -/
theorem prod_le_repetitions (checked : checkNesting alternation = none)
    (path : Path alternation items) :
    (items.map Item.times).prod ≤ repetitions alternation := by
  induction items generalizing alternation with
  | nil => exact one_le_repetitions alternation
  | cons item items inductionHypothesis =>
    have whole := path
    obtain ⟨itemIn, path⟩ := path
    rw [map_cons, prod_cons]
    cases item with
    | atom quant =>
      have none : items = [] := path
      rw [none, map_nil, prod_nil, mul_one]
      exact atom_le_repetitions itemIn
    | group quant body =>
      rcases isOwn : own quant with _ | most
      · obtain ⟨still, -⟩ := alone_on_path checked whole (own_none_iff.mp isOwn)
        have one : (Item.group quant body).times = 1 := by
          unfold Item.times Item.quant
          rw [isOwn, Option.getD_none]
        rw [one, one_mul]
        refine le_trans (prod_le_one fun other otherIn => times_le_one ?_)
          (one_le_repetitions alternation)
        unfold Item.counts
        rw [still other otherIn, Bool.false_and]
      · have times : (Item.group quant body).times = most := by
          unfold Item.times Item.quant
          rw [isOwn, Option.getD_some]
        rw [times]
        exact le_trans
          (Nat.mul_le_mul_left most (inductionHypothesis (mem_items_checked checked itemIn).2 path))
          (group_le_repetitions itemIn isOwn)

theorem path_mono {other : Alternation} (among : alternation.items ⊆ other.items)
    {items : List Item} (path : Path alternation items) : Path other items := by
  cases items with
  | nil => trivial
  | cons item items => exact ⟨among path.1, path.2⟩

theorem counts_of_own {most : Nat} (isOwn : own item.quant = some most) (more : 1 < most) :
    item.counts = true := by
  unfold Item.counts
  have bounded : hasNoBound item.quant = false := by
    by_contra unbounded
    rw [own_none_iff.mpr (Bool.eq_true_of_not_eq_false unbounded)] at isOwn
    cases isOwn
  rw [(repeats_iff isOwn).mpr more, bounded]
  rfl

/-- A path of one thing that repeats. -/
theorem path_single (itemIn : item ∈ alternation.items) :
    Path alternation [item] := by
  refine ⟨itemIn, ?_⟩
  cases item with
  | atom quant => exact rfl
  | group quant body => exact trivial

theorem prod_single (item : Item) : ([item].map Item.times).prod = item.times := by
  rw [map_singleton, prod_singleton]

/-- Some path has as many finite repetitions as are counted. -/
theorem exists_path_of_repetitions (more : 1 < repetitions alternation) :
    ∃ items, Path alternation items ∧ (items.map Item.times).prod = repetitions alternation ∧
      1 ≤ items.countP Item.counts := by
  induction alternation with
  | done => exact absurd more (lt_irrefl 1)
  | bar rest inductionHypothesis =>
    obtain ⟨items, path, counted⟩ := inductionHypothesis more
    exact ⟨items, @path_mono rest (.bar rest) (Subset.refl _) _ path, counted⟩
  | atom quant rest inductionHypothesis =>
    by_cases later : (own quant).getD 1 ≤ repetitions rest
    · have same : repetitions (.atom quant rest) = repetitions rest := max_eq_right later
      rw [same] at more ⊢
      obtain ⟨items, path, rest⟩ := inductionHypothesis more
      exact ⟨items, path_mono (subset_cons_self _ _) path, rest⟩
    · have same : repetitions (.atom quant rest) = (own quant).getD 1 :=
        max_eq_left (le_of_not_ge later)
      rw [same] at more ⊢
      rcases isOwn : own quant with _ | most
      · rw [isOwn] at more
        exact absurd more (lt_irrefl 1)
      · rw [isOwn, Option.getD_some] at more
        have counts : (Item.atom quant).counts = true := counts_of_own isOwn more
        refine ⟨[.atom quant], path_single mem_cons_self, ?_, ?_⟩
        · rw [prod_single]
          unfold Item.times Item.quant
          rw [isOwn]
        · rw [countP_cons_of_pos counts]
          omega
  | group quant body rest bodyHypothesis inductionHypothesis =>
    by_cases later : ((own quant).map (· * repetitions body)).getD 1 ≤ repetitions rest
    · have same : repetitions (.group quant body rest) = repetitions rest := max_eq_right later
      rw [same] at more ⊢
      obtain ⟨items, path, rest⟩ := inductionHypothesis more
      exact ⟨items, path_mono (subset_cons_self _ _) path, rest⟩
    · have same : repetitions (.group quant body rest) =
          ((own quant).map (· * repetitions body)).getD 1 := max_eq_left (le_of_not_ge later)
      rw [same] at more ⊢
      rcases isOwn : own quant with _ | most
      · rw [isOwn] at more
        exact absurd more (lt_irrefl 1)
      · rw [isOwn, Option.map_some, Option.getD_some] at more
        have times : (Item.group quant body).times = most := times_group isOwn
        rw [Option.map_some, Option.getD_some]
        by_cases inner : 1 < repetitions body
        · obtain ⟨items, path, product, counted⟩ := bodyHypothesis inner
          refine ⟨.group quant body :: items, ⟨mem_cons_self, path⟩, ?_, ?_⟩
          · rw [map_cons, prod_cons, times, product]
          · rw [countP_cons]
            omega
        · have one : repetitions body = 1 :=
            le_antisymm (not_lt.mp inner) (one_le_repetitions body)
          rw [one, mul_one] at more ⊢
          have counts : (Item.group quant body).counts = true := counts_of_own isOwn more
          refine ⟨[.group quant body], path_single mem_cons_self, ?_, ?_⟩
          · rw [prod_single, times]
          · rw [countP_cons_of_pos counts]
            omega

/-! ### When the bounds hold -/

/-- Groups around something unbounded that leave a zero between any two that repeat. -/
theorem prod_le_three {groups : List Item} (small : ∀ group ∈ groups, group.times ≤ 3)
    (some_ : ∀ group ∈ groups, group.times ≠ 0)
    (apart : ∀ first outer between inner after,
      groups = first ++ outer :: between ++ inner :: after → repeats outer.quant = true →
        repeats inner.quant = true → ∃ item ∈ between ++ after, item.times = 0) :
    (groups.map Item.times).prod ≤ 3 := by
  induction groups with
  | nil => exact (by decide : 1 ≤ 3)
  | cons group groups inductionHypothesis =>
    obtain ⟨smallHere, smallThere⟩ := forall_mem_cons.mp small
    obtain ⟨-, someThere⟩ := forall_mem_cons.mp some_
    rw [map_cons, prod_cons]
    rcases again : repeats group.quant with _ | _
    · have one : group.times ≤ 1 := times_le_one (by unfold Item.counts; rw [again]; rfl)
      refine Nat.mul_le_mul one (inductionHypothesis smallThere someThere ?_)
      intro first outer between inner after split
      exact apart (group :: first) outer between inner after (congrArg (group :: ·) split)
    · refine Nat.mul_le_mul smallHere (prod_le_one fun other otherIn => times_le_one ?_)
      by_contra counts
      have counts := Bool.eq_true_of_not_eq_false counts
      obtain ⟨between, after, split⟩ := append_of_mem otherIn
      obtain ⟨item, itemIn, zero⟩ := apart [] group between other after
        (congrArg (group :: ·) split) again (Bool.and_eq_true_iff.mp counts).1
      refine someThere item ?_ zero
      rw [split]
      obtain left | right := mem_append.mp itemIn
      · exact mem_append_left _ left
      · exact mem_append_right _ (mem_cons_of_mem _ right)

theorem prod_eq_zero (itemIn : item ∈ items) (zero : item.times = 0) :
    (items.map Item.times).prod = 0 := by
  obtain ⟨before, after, rfl⟩ := append_of_mem itemIn
  rw [map_append, prod_append, map_cons, prod_cons, zero, zero_mul, mul_zero]

/-- What a path goes on with from one of its groups. -/
theorem path_group {rest : List Item} (path : Path tree (before ++ item :: rest))
    (checked : checkNesting tree = none) (more : rest ≠ []) :
    ∃ quant body, item = .group quant body ∧ groupProblem quant body = none ∧
      checkNesting body = none ∧ Path body rest ∧ Path tree (before ++ [.group quant body]) := by
  have start : Path tree (before ++ [item]) := by
    have regrouped : before ++ item :: rest = (before ++ [item]) ++ rest := by
      rw [append_assoc, singleton_append]
    exact path_init (regrouped ▸ path)
  obtain ⟨inner, checkedInner, itemIn, path⟩ := path_tail path checked
  cases item with
  | atom quant => exact absurd path more
  | group quant body =>
    obtain ⟨allowed, checkedBody⟩ := mem_items_checked checkedInner itemIn
    exact ⟨quant, body, rfl, allowed, checkedBody, path, start⟩

theorem few_of_spread (checked : checkNesting tree = none) (spread : Spread tree)
    {groups : List Item} {last : Item} (path : Path tree (before ++ groups ++ [last]))
    (unbounded : hasNoBound last.quant = true) :
    (∀ group ∈ groups, hasNoBound group.quant = false) ∧ (groups.map Item.times).prod ≤ 3 := by
  have each (group : Item) (groupIn : group ∈ groups) :
      hasNoBound group.quant = false ∧ group.times ≤ 3 := by
    obtain ⟨first, after, split⟩ := append_of_mem groupIn
    have regrouped :
        before ++ groups ++ [last] = (before ++ first) ++ group :: (after ++ [last]) := by
      rw [split]
      simp only [append_assoc, cons_append]
    obtain ⟨quant, body, rfl, allowed, -, inner, -⟩ :=
      path_group (regrouped ▸ path) checked (by simp)
    obtain ⟨again, unboundedIn, -⟩ :=
      inside_path inner (mem_append_right after (mem_singleton_self last))
    rcases isOwn : own quant with _ | most
    · obtain ⟨still, -⟩ := group_alone allowed (own_none_iff.mp isOwn)
      rw [again (repeats_of_hasNoBound unbounded)] at still
      cases still
    · refine ⟨?_, ?_⟩
      · by_contra open_
        have none : own quant = .none := own_none_iff.mpr (Bool.eq_true_of_not_eq_false open_)
        rw [none] at isOwn
        cases isOwn
      · rw [times_group isOwn]
        exact (group_bounded allowed isOwn).1 (unboundedIn unbounded)
  refine ⟨fun group groupIn => (each group groupIn).1, ?_⟩
  by_cases zero : ∃ item ∈ groups, item.times = 0
  · obtain ⟨item, itemIn, isZero⟩ := zero
    rw [prod_eq_zero itemIn isZero]
    exact Nat.zero_le 3
  · refine prod_le_three (fun group groupIn => (each group groupIn).2)
      (fun group groupIn isZero => zero ⟨group, groupIn, isZero⟩) ?_
    intro first outer between inner after split outerAgain innerAgain
    refine spread.apart (before ++ first) outer between inner after last ?_ unbounded outerAgain
      innerAgain
    rw [split] at path
    simpa only [append_assoc, cons_append] using path

/-- On a path from a group that repeats, with another thing that does, the product is within the
bound. -/
theorem product_of_spread (checked : checkNesting tree = none) (spread : Spread tree)
    (path : Path tree (before ++ items)) (several : 2 ≤ items.countP Item.counts) :
    (items.map Item.times).prod ≤ MAX_NESTED_REPETITIONS := by
  induction items generalizing before with
  | nil => exact absurd several (by decide)
  | cons item items inductionHypothesis =>
    rw [map_cons, prod_cons]
    rcases counts : item.counts with _ | _
    · rw [countP_cons_of_neg (by rw [counts]; exact Bool.false_ne_true)] at several
      have regrouped : before ++ item :: items = (before ++ [item]) ++ items := by
        rw [append_assoc, singleton_append]
      calc item.times * (items.map Item.times).prod
          ≤ 1 * (items.map Item.times).prod := Nat.mul_le_mul_right _ (times_le_one counts)
        _ = (items.map Item.times).prod := one_mul _
        _ ≤ MAX_NESTED_REPETITIONS := inductionHypothesis (regrouped ▸ path) several
    · rw [countP_cons_of_pos counts] at several
      obtain ⟨other, otherIn, otherCounts⟩ :=
        countP_pos_iff.mp (show 0 < items.countP Item.counts by omega)
      obtain ⟨quant, body, rfl, allowed, checkedBody, inner, start⟩ :=
        path_group path checked (ne_nil_of_mem otherIn)
      obtain ⟨again, bounded⟩ := Bool.and_eq_true_iff.mp counts
      obtain ⟨most, isOwn⟩ : ∃ most, own quant = some most :=
        own_of_bounded (Bool.not_eq_eq_eq_not.mp bounded)
      have more : 1 < most := (repeats_iff isOwn).mp again
      obtain ⟨againIn, -, -⟩ := inside_path inner otherIn
      have repeatsIn := againIn (Bool.and_eq_true_iff.mp otherCounts).1
      rw [times_group isOwn]
      refine le_trans (Nat.mul_le_mul_left most (prod_le_repetitions checkedBody inner)) ?_
      obtain ⟨few, product⟩ := group_bounded allowed isOwn
      rcases unbounded : (inside body).unbounded with _ | _
      · exact product more repeatsIn unbounded
      · by_cases finite : 1 < repetitions body
        · exact spread.beside before quant body most start isOwn more unbounded finite
        · have small : most * repetitions body ≤ 3 * 1 :=
            Nat.mul_le_mul (few unbounded) (not_lt.mp finite)
          exact le_trans small (by decide)

theorem bounded_of_spread (checked : checkNesting tree = none) (spread : Spread tree) :
    Bounded tree where
  few _ _ _ path unbounded := few_of_spread checked spread path unbounded
  alone _ _ _ path unbounded := by
    obtain ⟨inner, checkedInner, path⟩ := path_tail path checked
    exact alone_on_path checkedInner path unbounded
  product _ _ path several := product_of_spread checked spread path several

theorem spread_of_bounded (bounded : Bounded tree) : Spread tree where
  apart before outer between inner after last path unbounded outerAgain innerAgain := by
    by_contra none
    have nonzero (item : Item) (itemIn : item ∈ between ++ after) : item.times ≠ 0 :=
      fun zero => none ⟨item, itemIn, zero⟩
    have regrouped : before ++ outer :: between ++ inner :: after ++ [last] =
        before ++ (outer :: between ++ inner :: after) ++ [last] := by
      simp only [append_assoc, cons_append]
    obtain ⟨each, product⟩ := bounded.few before (outer :: between ++ inner :: after) last
      (regrouped ▸ path) unbounded
    have outerTimes := (counts_of_repeats (each outer mem_cons_self) outerAgain).2
    have innerTimes := (counts_of_repeats (each inner (by simp)) innerAgain).2
    have betweenTimes := one_le_prod fun item itemIn =>
      nonzero item (mem_append_left after itemIn)
    have afterTimes := one_le_prod fun item itemIn =>
      nonzero item (mem_append_right between itemIn)
    rw [cons_append, map_cons, prod_cons, map_append, prod_append,
      map_cons, prod_cons] at product
    have four : 2 * (1 * (2 * 1)) ≤ outer.times * ((between.map Item.times).prod *
        (inner.times * (after.map Item.times).prod)) :=
      Nat.mul_le_mul outerTimes (Nat.mul_le_mul betweenTimes (Nat.mul_le_mul innerTimes afterTimes))
    omega
  beside before quant body most path isOwn more _ finite := by
    obtain ⟨items, inner, product, counted⟩ := exists_path_of_repetitions finite
    have counts : (Item.group quant body).counts = true := counts_of_own isOwn more
    have within := bounded.product before (.group quant body :: items) (path_append path inner)
      (by rw [countP_cons_of_pos counts]; omega)
    rwa [map_cons, prod_cons, times_group isOwn, product] at within

/-- Of every accepted expression the repetitions are bounded along every path of nested groups
exactly where the nesting rule leaves nothing out. -/
theorem bounded_iff (compiles : List Char → Bool) (pattern : List Char)
    (accepted : regexProblems compiles pattern = []) :
    ∃ tree, parse pattern = .ok tree ∧ (Bounded tree ↔ Spread tree) := by
  unfold regexProblems at accepted
  split at accepted
  · cases accepted
  split at accepted
  · cases accepted
  split at accepted
  · cases accepted
  split at accepted
  · cases accepted
  split at accepted
  · cases accepted
  case h_2 tree isTree =>
    split at accepted
    · cases accepted
    · have checked : checkNesting tree = none := by
        rcases problem : checkNesting tree with _ | problem
        · rfl
        · rw [problem] at accepted
          cases accepted
      exact ⟨tree, isTree, spread_of_bounded, bounded_of_spread checked⟩

theorem bounded_iff_version :
    ∃ tree, parse "^v[0-9]{1,3}(\\.[0-9]{1,3}){1,3}$".toList = .ok tree ∧
      (Bounded tree ↔ Spread tree) :=
  bounded_iff (fun _ => true) _ (by decide +kernel)

/-- Something without a bound in a group that repeats three times. -/
def three : Alternation := .group (some ⟨3, some 3⟩) (.atom (some ⟨1, none⟩) .done) .done

/-- That in a group that repeats three times too: nine times in all. -/
def nine : Alternation := .group (some ⟨3, some 3⟩) three .done

theorem unbounded_nine :
    ¬ ∀ compiles pattern, regexProblems compiles pattern = [] →
      ∃ tree, parse pattern = .ok tree ∧ Bounded tree := by
  intro claimed
  obtain ⟨tree, isTree, bounded⟩ :=
    claimed (fun _ => true) "((a+){3}){3}".toList (by decide +kernel)
  have isNine : parse "((a+){3}){3}".toList = .ok nine := by decide +kernel
  obtain rfl := Except.ok.inj (isTree.symm.trans isNine)
  obtain ⟨-, product⟩ := bounded.few []
    [.group (some ⟨3, some 3⟩) three, .group (some ⟨3, some 3⟩) (.atom (some ⟨1, none⟩) .done)]
    (.atom (some ⟨1, none⟩))
    ⟨mem_cons_self, mem_cons_self, mem_cons_self, rfl⟩ rfl
  exact absurd product (by decide)

end Geeboard.Games.SafeRegex
