/-
This file is about the order of release versions.

Versions are ordered by keys: the three numbers, then the identifiers, which a release
does without and so stands above its pre-releases. The panel's comparison goes by the
keys in which a number is its double, and semver by those in which it is itself. So
the panel's is an order in any case, and it is semver's as long as no double hides the
place where two pre-releases part.
-/

import Geeboard.Panel.Releases
import Geeboard.Systems.Results
import Mathlib.Data.Char
import Mathlib.Data.List.Lex
import Mathlib.Data.Prod.Lex
import Mathlib.Data.Sum.Order
import Mathlib.Order.WithBot
import Mathlib.Data.Nat.Cast.WithTop

namespace Geeboard.Panel.Releases

open List

/-! ### Keys -/

/-- An identifier as something to be ordered: numbers come before texts. -/
abbrev IdentifierKey := WithTop ℕ ⊕ₗ List Char

/-- A version as something to be ordered: what has no identifiers comes last. -/
abbrev Key := ℕ ×ₗ ℕ ×ₗ ℕ ×ₗ WithTop (List IdentifierKey)

/-- What an identifier of digits stands for. -/
def exact (identifier : List Char) : WithTop ℕ := (Text.decimal identifier : ℕ)

/-- What the panel reads it as. -/
def doubled (identifier : List Char) : WithTop ℕ := number identifier

section

variable (value : List Char → WithTop ℕ)

def identifierKey (identifier : List Char) : IdentifierKey :=
  if isNumeric identifier then toLex (Sum.inl (value identifier)) else toLex (Sum.inr identifier)

def preKey (pre : List (List Char)) : WithTop (List IdentifierKey) :=
  if pre = [] then ⊤ else (pre.map (identifierKey value) : List IdentifierKey)

def key (version : Parsed) : Key :=
  toLex (version.major, toLex (version.minor, toLex (version.patch, preKey value version.pre)))

end

theorem identifierKey_number (value : List Char → WithTop ℕ) {identifier : List Char}
    (numeric : isNumeric identifier = true) :
    identifierKey value identifier = toLex (Sum.inl (value identifier)) := if_pos numeric

theorem identifierKey_text (value : List Char → WithTop ℕ) {identifier : List Char}
    (text : isNumeric identifier = false) :
    identifierKey value identifier = toLex (Sum.inr identifier) :=
  if_neg (Bool.eq_false_iff.mp text)

/-- Precedence, as semver has it. -/
def Precedes (first second : Parsed) : Prop := key exact first < key exact second

/-- A comparison that is below zero, zero or above it as an order is. -/
def Follows {Ordered : Type} [LT Ordered] (order : Int) (first second : Ordered) : Prop :=
  (order < 0 ↔ first < second) ∧ (0 < order ↔ second < first)

/-! ### The panel's comparison -/

theorem follows_sub (first second : ℕ) : Follows ((first : Int) - second) first second := by
  unfold Follows
  omega

theorem follows_numberLess {first second : Option ℕ} (different : first ≠ second) :
    @Follows (WithTop ℕ) _ (numberLess first second) first second := by
  unfold Follows
  cases first with
  | none =>
    cases second with
    | none => exact absurd rfl different
    | some second =>
      rw [show numberLess none (some second) = 1 from rfl]
      exact ⟨iff_of_false (by decide) (not_lt.mpr le_top),
        iff_of_true (by decide) (WithTop.coe_lt_top second)⟩
  | some first =>
    cases second with
    | none =>
      rw [show numberLess (some first) none = -1 from rfl]
      exact ⟨iff_of_true (by decide) (WithTop.coe_lt_top first),
        iff_of_false (by decide) (not_lt.mpr le_top)⟩
    | some second =>
      have follows := follows_sub first second
      exact ⟨follows.1.trans WithTop.coe_lt_coe.symm, follows.2.trans WithTop.coe_lt_coe.symm⟩

theorem follows_zero {Ordered : Type} [Preorder Ordered] (one : Ordered) : Follows 0 one one :=
  ⟨iff_of_false (lt_irrefl 0) (lt_irrefl one), iff_of_false (lt_irrefl 0) (lt_irrefl one)⟩

theorem follows_of_lt {Ordered : Type} [Preorder Ordered] {first second : Ordered}
    (less : first < second) : Follows (-1) first second :=
  ⟨iff_of_true (by decide) less, iff_of_false (by decide) (lt_asymm less)⟩

theorem follows_of_gt {Ordered : Type} [Preorder Ordered] {first second : Ordered}
    (more : second < first) : Follows 1 first second :=
  ⟨iff_of_false (by decide) (lt_asymm more), iff_of_true (by decide) more⟩

theorem follows_identifiers (first second : List Char) :
    Follows (compareIdentifiers first second) (identifierKey doubled first)
      (identifierKey doubled second) := by
  unfold compareIdentifiers identifierKey
  cases one : isNumeric first with
  | true =>
    cases other : isNumeric second with
    | true =>
      show Follows (if number first ≠ number second then _ else 0) _ _
      split
      · next different =>
        have follows := follows_numberLess different
        exact ⟨follows.1.trans Sum.Lex.inl_lt_inl_iff.symm,
          follows.2.trans Sum.Lex.inl_lt_inl_iff.symm⟩
      · next same =>
        rw [show doubled first = doubled second from not_not.mp same]
        exact follows_zero _
    | false => exact @follows_of_lt IdentifierKey _ _ _ (Sum.Lex.inl_lt_inr _ _)
  | false =>
    cases other : isNumeric second with
    | true => exact @follows_of_gt IdentifierKey _ _ _ (Sum.Lex.inl_lt_inr _ _)
    | false =>
      show Follows (if first ≠ second then if first < second then -1 else 1 else 0) _ _
      split
      · next different =>
        split
        · next less => exact @follows_of_lt IdentifierKey _ _ _ (Sum.Lex.inr_lt_inr_iff.mpr less)
        · next more =>
          exact @follows_of_gt IdentifierKey _ _ _ (Sum.Lex.inr_lt_inr_iff.mpr
            (lt_of_le_of_ne (not_lt.mp more) (Ne.symm different)))
      · next same =>
        rw [not_not.mp same]
        exact follows_zero _

/-- What is ordered by the first place where it is different. -/
theorem follows_cons {order rest : Int} {one other : IdentifierKey}
    {ones others : List IdentifierKey} (here : Follows order one other)
    (there : Follows rest ones others) :
    Follows (if order ≠ 0 then order else rest) (one :: ones) (other :: others) := by
  unfold Follows at here there ⊢
  rw [cons_lt_cons_iff, cons_lt_cons_iff]
  split
  · next different =>
    have apart : one ≠ other := by
      rintro rfl
      have below := here.1.not.mpr (lt_irrefl one)
      have above := here.2.not.mpr (lt_irrefl one)
      omega
    exact ⟨here.1.trans (or_iff_left fun same => apart same.1).symm,
      here.2.trans (or_iff_left fun same => apart same.1.symm).symm⟩
  · next same =>
    have level : order = 0 := not_not.mp same
    have notLess : ¬ one < other := here.1.not.mp (by omega)
    have notMore : ¬ other < one := here.2.not.mp (by omega)
    obtain rfl : one = other := le_antisymm (not_lt.mp notMore) (not_lt.mp notLess)
    exact ⟨there.1.trans ((or_iff_right notLess).trans (and_iff_right rfl)).symm,
      there.2.trans ((or_iff_right notLess).trans (and_iff_right rfl)).symm⟩

theorem follows_pre (first second : List (List Char)) :
    Follows (comparePre first second) (first.map (identifierKey doubled))
      (second.map (identifierKey doubled)) := by
  induction first generalizing second with
  | nil =>
    cases second with
    | nil => exact follows_zero _
    | cons other others => exact follows_of_lt (nil_lt_cons _ _)
  | cons one ones inductionHypothesis =>
    cases second with
    | nil => exact follows_of_gt (nil_lt_cons _ _)
    | cons other others =>
      exact follows_cons (follows_identifiers one other) (inductionHypothesis others)

/-- Where numbers are compared first. -/
theorem follows_number {Rest : Type} [LinearOrder Rest] {rest : Int} (one other : ℕ)
    {ones others : Rest} (there : Follows rest ones others) :
    Follows (if one ≠ other then (one : Int) - other else rest) (toLex (one, ones))
      (toLex (other, others)) := by
  unfold Follows at there ⊢
  rw [Prod.Lex.toLex_lt_toLex, Prod.Lex.toLex_lt_toLex]
  split
  · omega
  · next same =>
    obtain rfl : one = other := not_not.mp same
    exact ⟨there.1.trans ((or_iff_right (lt_irrefl one)).trans (and_iff_right rfl)).symm,
      there.2.trans ((or_iff_right (lt_irrefl one)).trans (and_iff_right rfl)).symm⟩

/-- The panel's comparison of two versions is the order of their keys. -/
theorem follows_parsed (first second : Parsed) :
    Follows (compareParsed first second) (key doubled first) (key doubled second) := by
  refine follows_number _ _ (follows_number _ _ (follows_number _ _ ?_))
  unfold preKey
  by_cases one : first.pre = []
  · by_cases other : second.pre = []
    · rw [if_pos ⟨one, other⟩, if_pos one, if_pos other]
      exact follows_zero _
    · rw [if_neg fun both => other both.2, if_pos one, if_pos one, if_neg other]
      exact follows_of_gt (WithTop.coe_lt_top _)
  · by_cases other : second.pre = []
    · rw [if_neg fun both => one both.1, if_neg one, if_pos other, if_neg one, if_pos other]
      exact follows_of_lt (WithTop.coe_lt_top _)
    · rw [if_neg fun both => one both.1, if_neg one, if_neg other, if_neg one, if_neg other]
      have follows := follows_pre first.pre second.pre
      exact ⟨follows.1.trans WithTop.coe_lt_coe.symm, follows.2.trans WithTop.coe_lt_coe.symm⟩

/-! ### Doubles that hide a difference -/

/-- Two lists of identifiers part at numbers that have one double, the smaller one in the first,
and what stands behind it there is not below what stands behind the larger one. -/
structure Hidden (first second : List (List Char)) : Prop where
  intro ::
  parts : ∃ front front' one other rest rest',
    first = front ++ one :: rest ∧ second = front' ++ other :: rest' ∧
    front.map (identifierKey exact) = front'.map (identifierKey exact) ∧
    isNumeric one = true ∧ isNumeric other = true ∧
    exact one < exact other ∧ doubled one = doubled other ∧
    ¬ rest.map (identifierKey doubled) < rest'.map (identifierKey doubled)

/-- The numbers before the identifiers are the same. -/
def SameCore (first second : Parsed) : Prop :=
  first.major = second.major ∧ first.minor = second.minor ∧ first.patch = second.patch

/-- The doubles hide that the first version comes before the second. -/
def Hides (first second : Parsed) : Prop :=
  SameCore first second ∧ Hidden first.pre second.pre

/-- The two orders of two lists of identifiers are one. -/
def Alike (first second : List (List Char)) : Prop :=
  (first.map (identifierKey doubled) < second.map (identifierKey doubled) ↔
    first.map (identifierKey exact) < second.map (identifierKey exact)) ∧
  (second.map (identifierKey doubled) < first.map (identifierKey doubled) ↔
    second.map (identifierKey exact) < first.map (identifierKey exact))

theorem Alike.symm {first second : List (List Char)} (alike : Alike first second) :
    Alike second first := ⟨alike.2, alike.1⟩

theorem doubled_mono {first second : List Char} (less : exact first ≤ exact second) :
    doubled first ≤ doubled second := by
  have numbers : Text.decimal first ≤ Text.decimal second := WithTop.coe_le_coe.mp less
  cases read : number second with
  | none =>
    rw [show doubled second = ⊤ from read]
    exact le_top
  | some double =>
    obtain ⟨smaller, read', fewer⟩ := Text.wholeDouble_mono numbers read
    rw [show doubled second = (double : WithTop ℕ) from read,
      show doubled first = (smaller : WithTop ℕ) from read']
    exact WithTop.coe_le_coe.mpr fewer

/-- Identifiers that are level to semver are level to the panel. -/
theorem doubled_of_exact {first second : List Char}
    (same : identifierKey exact first = identifierKey exact second) :
    identifierKey doubled first = identifierKey doubled second := by
  cases one : isNumeric first with
  | true =>
    rw [identifierKey_number _ one] at same ⊢
    cases other : isNumeric second with
    | true =>
      rw [identifierKey_number _ other] at same ⊢
      have level : exact first = exact second := Sum.inl.inj (toLex.injective same)
      rw [le_antisymm (doubled_mono level.le) (doubled_mono level.ge)]
    | false =>
      rw [identifierKey_text _ other] at same
      exact nomatch toLex.injective same
  | false =>
    rw [identifierKey_text _ one] at same ⊢
    cases other : isNumeric second with
    | true =>
      rw [identifierKey_number _ other] at same
      exact nomatch toLex.injective same
    | false =>
      rw [identifierKey_text _ other] at same ⊢
      exact same

/-- Identifiers that semver tells apart the panel tells apart too, unless their doubles are
one. -/
theorem doubled_or_hidden {first second : List Char}
    (less : identifierKey exact first < identifierKey exact second) :
    identifierKey doubled first < identifierKey doubled second ∨
      (isNumeric first = true ∧ isNumeric second = true ∧ exact first < exact second ∧
        doubled first = doubled second) := by
  cases one : isNumeric first with
  | true =>
    cases other : isNumeric second with
    | true =>
      rw [identifierKey_number _ one, identifierKey_number _ other] at less ⊢
      have numbers := Sum.Lex.inl_lt_inl_iff.mp less
      obtain apart | level := lt_or_eq_of_le (doubled_mono numbers.le)
      · exact Or.inl (Sum.Lex.inl_lt_inl_iff.mpr apart)
      · exact Or.inr ⟨rfl, rfl, numbers, level⟩
    | false =>
      rw [identifierKey_number _ one, identifierKey_text _ other]
      exact Or.inl (Sum.Lex.inl_lt_inr _ _)
  | false =>
    cases other : isNumeric second with
    | true =>
      rw [identifierKey_text _ one, identifierKey_number _ other] at less
      exact absurd less (lt_asymm (Sum.Lex.inl_lt_inr _ _))
    | false =>
      rw [identifierKey_text _ one, identifierKey_text _ other] at less ⊢
      exact Or.inl less

theorem not_hidden_nil (first : List (List Char)) : ¬ Hidden first [] := by
  rintro ⟨front, front', one, other, rest, rest', _, none_, _⟩
  cases front' with
  | nil => cases none_
  | cons _ _ => cases none_

theorem not_hidden_of_nil (second : List (List Char)) : ¬ Hidden [] second := by
  rintro ⟨front, front', one, other, rest, rest', none_, _⟩
  cases front with
  | nil => cases none_
  | cons _ _ => cases none_

/-- Behind identifiers that are level nothing changes. -/
theorem hidden_cons_of_level {one other : List Char} {ones others : List (List Char)}
    (level : identifierKey exact one = identifierKey exact other) :
    Hidden (one :: ones) (other :: others) ↔ Hidden ones others := by
  constructor
  · rintro ⟨front, front', first, second, rest, rest', split, split', fronts, numeric, numeric',
      less, hidden⟩
    cases front with
    | nil =>
      cases front' with
      | nil =>
        cases split
        cases split'
        rw [identifierKey_number _ numeric, identifierKey_number _ numeric'] at level
        exact absurd (Sum.inl.inj (toLex.injective level)) less.ne
      | cons _ _ => cases fronts
    | cons head front =>
      cases front' with
      | nil => cases fronts
      | cons head' front' =>
        obtain ⟨rfl, rfl⟩ := cons.inj split
        obtain ⟨rfl, rfl⟩ := cons.inj split'
        exact ⟨front, front', first, second, rest, rest', rfl, rfl, (cons.inj fronts).2,
          numeric, numeric', less, hidden⟩
  · rintro ⟨front, front', first, second, rest, rest', rfl, rfl, fronts, hidden⟩
    exact ⟨one :: front, other :: front', first, second, rest, rest', rfl, rfl,
      by rw [map_cons, map_cons, level, fronts], hidden⟩

/-- Where the first identifiers part, they are the ones that matter. -/
theorem hidden_cons_of_ne {one other : List Char} {ones others : List (List Char)}
    (apart : identifierKey exact one ≠ identifierKey exact other) :
    Hidden (one :: ones) (other :: others) ↔
      isNumeric one = true ∧ isNumeric other = true ∧ exact one < exact other ∧
        doubled one = doubled other ∧
        ¬ ones.map (identifierKey doubled) < others.map (identifierKey doubled) := by
  constructor
  · rintro ⟨front, front', first, second, rest, rest', split, split', fronts, hidden⟩
    cases front with
    | nil =>
      cases front' with
      | nil =>
        cases split
        cases split'
        exact hidden
      | cons _ _ => cases fronts
    | cons head front =>
      cases front' with
      | nil => cases fronts
      | cons head' front' =>
        obtain ⟨rfl, rfl⟩ := cons.inj split
        obtain ⟨rfl, rfl⟩ := cons.inj split'
        exact absurd (cons.inj fronts).1 apart
  · exact fun hidden => ⟨[], [], one, other, ones, others, rfl, rfl, rfl, hidden⟩

/-- Where the first identifiers part. -/
theorem alike_of_lt {one other : List Char} {ones others : List (List Char)}
    (less : identifierKey exact one < identifierKey exact other) :
    Alike (one :: ones) (other :: others) ↔
      ¬ Hidden (one :: ones) (other :: others) ∧ ¬ Hidden (other :: others) (one :: ones) := by
  have forth : List.map (identifierKey exact) (one :: ones) <
      List.map (identifierKey exact) (other :: others) :=
    cons_lt_cons_iff.mpr (Or.inl less)
  have back := lt_asymm forth
  have notBack : ¬ Hidden (other :: others) (one :: ones) := by
    rw [hidden_cons_of_ne less.ne']
    rintro ⟨numeric, numeric', more, _⟩
    rw [identifierKey_number _ numeric, identifierKey_number _ numeric'] at less
    exact lt_asymm more (Sum.Lex.inl_lt_inl_iff.mp less)
  have alike : Alike (one :: ones) (other :: others) ↔
      List.map (identifierKey doubled) (one :: ones) <
        List.map (identifierKey doubled) (other :: others) :=
    ⟨fun alike => alike.1.mpr forth, fun before => ⟨iff_of_true before forth,
      iff_of_false (lt_asymm before) back⟩⟩
  rw [alike, hidden_cons_of_ne less.ne, map_cons, map_cons, cons_lt_cons_iff,
    and_iff_left notBack]
  obtain apart | ⟨numeric, numeric', numbers, level⟩ := doubled_or_hidden less
  · refine iff_of_true (Or.inl apart) ?_
    rintro ⟨numeric, numeric', _, level, _⟩
    rw [identifierKey_number _ numeric, identifierKey_number _ numeric', level] at apart
    exact lt_irrefl _ apart
  · have keys : identifierKey doubled one = identifierKey doubled other := by
      rw [identifierKey_number _ numeric, identifierKey_number _ numeric', level]
    rw [keys]
    have rest : (identifierKey doubled other < identifierKey doubled other ∨
        identifierKey doubled other = identifierKey doubled other ∧
          ones.map (identifierKey doubled) < others.map (identifierKey doubled)) ↔
        ones.map (identifierKey doubled) < others.map (identifierKey doubled) :=
      (or_iff_right (lt_irrefl _)).trans (and_iff_right rfl)
    rw [rest]
    exact ⟨fun before hidden => hidden.2.2.2.2 before,
      fun open_ => not_not.mp fun hidden => open_ ⟨numeric, numeric', numbers, level, hidden⟩⟩

/-- The panel orders two lists of identifiers as semver does exactly if no double hides where
they part. -/
theorem alike_iff (first second : List (List Char)) :
    Alike first second ↔ ¬ Hidden first second ∧ ¬ Hidden second first := by
  induction first generalizing second with
  | nil =>
    refine iff_of_true ?_ ⟨not_hidden_of_nil second, not_hidden_nil second⟩
    cases second with
    | nil => exact ⟨iff_of_false (lt_irrefl _) (lt_irrefl _), iff_of_false (lt_irrefl _) (lt_irrefl _)⟩
    | cons other others =>
      exact ⟨iff_of_true (nil_lt_cons _ _) (nil_lt_cons _ _),
        iff_of_false (not_lt_nil _) (not_lt_nil _)⟩
  | cons one ones inductionHypothesis =>
    cases second with
    | nil =>
      refine iff_of_true ⟨iff_of_false (not_lt_nil _) (not_lt_nil _),
        iff_of_true (nil_lt_cons _ _) (nil_lt_cons _ _)⟩
        ⟨not_hidden_nil _, not_hidden_of_nil _⟩
    | cons other others =>
      obtain less | level | more :=
        lt_trichotomy (identifierKey exact one) (identifierKey exact other)
      · exact alike_of_lt less
      · rw [hidden_cons_of_level level, hidden_cons_of_level level.symm, ← inductionHypothesis]
        unfold Alike
        simp only [map_cons, cons_lt_cons_iff, level, doubled_of_exact level, lt_irrefl,
          true_and, false_or]
      · exact ⟨fun alike => ((alike_of_lt more).mp alike.symm).symm,
          fun plain => ((alike_of_lt more).mpr plain.symm).symm⟩

/-! ### Versions as semver orders them -/

/-- The numbers of the first version come before those of the second. -/
def CoreBelow (first second : Parsed) : Prop :=
  first.major < second.major ∨ first.major = second.major ∧
    (first.minor < second.minor ∨ first.minor = second.minor ∧ first.patch < second.patch)

theorem key_lt_iff (value : List Char → WithTop ℕ) (first second : Parsed) :
    key value first < key value second ↔ CoreBelow first second ∨
      SameCore first second ∧ preKey value first.pre < preKey value second.pre := by
  unfold key CoreBelow SameCore
  rw [Prod.Lex.toLex_lt_toLex, Prod.Lex.toLex_lt_toLex, Prod.Lex.toLex_lt_toLex]
  tauto

theorem preKey_nil (value : List Char → WithTop ℕ) : preKey value [] = ⊤ := if_pos rfl

theorem preKey_of_ne (value : List Char → WithTop ℕ) {pre : List (List Char)} (some_ : pre ≠ []) :
    preKey value pre = (pre.map (identifierKey value) : List IdentifierKey) := if_neg some_

/-- A release, which has no identifiers, stands where it stands however they are read. -/
theorem preKey_lt_release {first second : List (List Char)} (release : first = [] ∨ second = []) :
    preKey doubled first < preKey doubled second ↔ preKey exact first < preKey exact second := by
  by_cases one : first = []
  · rw [one, preKey_nil, preKey_nil]
    exact iff_of_false not_top_lt not_top_lt
  · have other : second = [] := release.resolve_left one
    rw [other, preKey_nil, preKey_nil, preKey_of_ne _ one, preKey_of_ne _ one]
    exact iff_of_true (WithTop.coe_lt_top _) (WithTop.coe_lt_top _)

/-- A version and a release are ordered by the numbers, and by whether the version has
identifiers. -/
theorem key_lt_release {first second : Parsed} (release : first.pre = [] ∨ second.pre = []) :
    key doubled first < key doubled second ↔ key exact first < key exact second := by
  rw [key_lt_iff, key_lt_iff, preKey_lt_release release]

/-- The panel orders two versions as semver does exactly if no double hides where they part. -/
theorem precedes_iff (first second : Parsed) :
    ((key doubled first < key doubled second ↔ Precedes first second) ∧
      (key doubled second < key doubled first ↔ Precedes second first)) ↔
    ¬ Hides first second ∧ ¬ Hides second first := by
  unfold Precedes
  by_cases release : first.pre = [] ∨ second.pre = []
  · refine iff_of_true ⟨key_lt_release release, key_lt_release release.symm⟩ ?_
    obtain none_ | none_ := release
    · exact ⟨fun hides => not_hidden_of_nil _ (none_ ▸ hides.2),
        fun hides => not_hidden_nil _ (none_ ▸ hides.2)⟩
    · exact ⟨fun hides => not_hidden_nil _ (none_ ▸ hides.2),
        fun hides => not_hidden_of_nil _ (none_ ▸ hides.2)⟩
  · obtain ⟨one, other⟩ := not_or.mp release
    have alike := alike_iff first.pre second.pre
    have back : SameCore second first ↔ SameCore first second :=
      ⟨fun same => ⟨same.1.symm, same.2.1.symm, same.2.2.symm⟩,
        fun same => ⟨same.1.symm, same.2.1.symm, same.2.2.symm⟩⟩
    have apart : SameCore first second → ¬ CoreBelow first second ∧ ¬ CoreBelow second first := by
      unfold SameCore CoreBelow
      omega
    unfold Hides
    rw [key_lt_iff, key_lt_iff, key_lt_iff, key_lt_iff, back]
    simp only [preKey_of_ne _ one, preKey_of_ne _ other, WithTop.coe_lt_coe]
    by_cases core : SameCore first second
    · simp only [apart core, core, true_and, false_or]
      exact alike
    · simp only [core, false_and, or_false, not_false_eq_true, and_self]

/-! ### The verdict -/

/-- How bad a state is: a security problem, then a newer release, then none, then being ahead
of it. -/
def PanelState.rank : PanelState → Nat
  | .unknown => 4
  | .security => 3
  | .recommended => 2
  | .update => 2
  | .current => 1
  | .ahead => 0

/-- A release and its floor are versions without identifiers. -/
structure Released (release : Release) : Prop where
  version : ∃ newest, parseVersion release.version = some newest ∧ newest.pre = []
  securityFloor : ∀ floor, release.securityFloor = some floor →
    ∃ oldest, parseVersion floor = some oldest ∧ oldest.pre = []

/-- Blanks around a version do not matter. -/
theorem parseVersion_trimmed (text : List Char) :
    parseVersion (Text.trimmed text) = parseVersion text := by
  unfold parseVersion
  rw [Text.trimmed_trimmed]

theorem parsed_of_floor {value : Option Text.PlainJson} {text : List Char}
    (read : floor value = .ok (some text)) :
    ∃ oldest, parseVersion text = some oldest ∧ oldest.pre = [] := by
  unfold floor at read
  split at read
  · cases read
  · cases read
  · split at read
    · next parsed known =>
      split at read
      · next release =>
        cases read
        exact ⟨parsed, (parseVersion_trimmed _).trans known, release⟩
      · cases read
    · cases read
  · cases read

theorem parsed_of_parseFloor {entries : List (String × Text.PlainJson)} {version : List Char}
    {name : String} {result : Option (List Char)}
    (read : parseFloor entries version name = .ok result) (text : List Char)
    (some_ : result = some text) : ∃ oldest, parseVersion text = some oldest ∧ oldest.pre = [] := by
  unfold parseFloor at read
  split at read
  · cases read
  · cases read
    cases some_
  · next found =>
    split at read
    · cases read
    · cases read
      cases some_
      exact parsed_of_floor found

section

variable {readUrl : List Char → Option (List Char × List Char × List Char × List Char)}
  {stringify : Option Text.PlainJson → String}

theorem released_of_parseRelease {raw : Text.PlainJson} {release : Release}
    (parsed : parseRelease readUrl stringify raw = .ok release) : Released release := by
  unfold parseRelease at parsed
  split at parsed
  · split at parsed
    · split at parsed
      · next version _ =>
        split at parsed
        · next known =>
          obtain ⟨newest, found, release⟩ : ∃ newest, parseVersion version.toList = some newest ∧
              newest.pre = [] := by
            cases found : parseVersion version.toList with
            | none =>
              rw [found] at known
              cases known
            | some newest =>
              rw [found] at known
              exact ⟨newest, rfl, List.isEmpty_iff.mp known⟩
          obtain ⟨date, _, parsed⟩ := Systems.ok_of_bind parsed
          obtain ⟨recommended, _, parsed⟩ := Systems.ok_of_bind parsed
          obtain ⟨securityFloor, floored, parsed⟩ := Systems.ok_of_bind parsed
          obtain ⟨agentFloor, _, parsed⟩ := Systems.ok_of_bind parsed
          obtain ⟨agentSecurityFloor, _, parsed⟩ := Systems.ok_of_bind parsed
          cases parsed
          exact ⟨⟨newest, (parseVersion_trimmed _).trans found, release⟩,
            parsed_of_parseFloor floored⟩
        · cases parsed
      · cases parsed
    · cases parsed
  · cases parsed

end

theorem compareVersions_of_parsed {first second : List Char} {one other : Parsed}
    (parsed : parseVersion first = some one) (parsed' : parseVersion second = some other) :
    compareVersions first second = some (compareParsed one other) := by
  unfold compareVersions
  rw [parsed, parsed']

/-- A version compared with a release is in its place, whichever way numbers are read. -/
theorem follows_release {value : List Char → WithTop ℕ} (reads : value = doubled ∨ value = exact)
    {version newest : Parsed} (release : newest.pre = []) :
    Follows (compareParsed version newest) (key value version) (key value newest) := by
  have follows := follows_parsed version newest
  obtain rfl | rfl := reads
  · exact follows
  · exact ⟨follows.1.trans (key_lt_release (Or.inr release)),
      follows.2.trans (key_lt_release (Or.inl release))⟩

/-- Whether a version is below the floor of a release. -/
def Insecure (version : List Char) (release : Release) : Prop :=
  ∃ floor, release.securityFloor = some floor ∧ (compareVersions version floor).getD 0 < 0

open Classical in
/-- How bad the state of a version is. -/
theorem rank_classifyPanel {version : List Char} {release : Release} {order : Int}
    (compared : compareVersions version release.version = some order) :
    (classifyPanel version release).state.rank =
      if Insecure version release then 3 else if order < 0 then 2 else if order = 0 then 1 else 0 := by
  unfold classifyPanel
  dsimp only
  rw [compared]
  dsimp only
  split
  · next floor found =>
    obtain ⟨floored, below⟩ := Option.filter_eq_some_iff.mp found
    rw [if_pos ⟨floor, floored, of_decide_eq_true below⟩]
    rfl
  · next secure =>
    have safe : ¬ Insecure version release := by
      rintro ⟨floor, floored, below⟩
      exact Option.filter_eq_none_iff.mp secure floor floored (decide_eq_true below)
    rw [if_neg safe]
    by_cases less : order < 0
    · rw [if_pos less, if_pos less]
      split
      · rfl
      · rfl
    · rw [if_neg less, if_neg less]
      split
      · rfl
      · rfl

/-- The verdict follows the order, whichever way numbers are read: a version that is not below
another is not judged worse. -/
theorem rank_le_of_key_le {value : List Char → WithTop ℕ}
    (reads : value = doubled ∨ value = exact) {first second : List Char} {one other : Parsed}
    (parsed : parseVersion first = some one) (parsed' : parseVersion second = some other)
    (order : key value one ≤ key value other) {release : Release} (released : Released release) :
    (classifyPanel second release).state.rank ≤ (classifyPanel first release).state.rank := by
  obtain ⟨newest, version, none_⟩ := released.version
  have here := @follows_release value reads one newest none_
  have there := @follows_release value reads other newest none_
  have insecure : Insecure second release → Insecure first release := by
    rintro ⟨floor, found, below⟩
    obtain ⟨oldest, known, none_⟩ := released.securityFloor floor found
    rw [compareVersions_of_parsed parsed' known] at below
    refine ⟨floor, found, ?_⟩
    rw [compareVersions_of_parsed parsed known]
    exact (follows_release reads none_).1.mpr
      (order.trans_lt ((follows_release reads none_).1.mp below))
  have below : compareParsed other newest < 0 → compareParsed one newest < 0 :=
    fun less => here.1.mpr (order.trans_lt (there.1.mp less))
  have above : 0 < compareParsed one newest → 0 < compareParsed other newest :=
    fun more => there.2.mpr ((here.2.mp more).trans_le order)
  rw [rank_classifyPanel (compareVersions_of_parsed parsed version),
    rank_classifyPanel (compareVersions_of_parsed parsed' version)]
  by_cases worse : Insecure first release
  · rw [if_pos worse]
    split
    · exact Nat.le_refl _
    · split
      · decide
      · split <;> decide
  · rw [if_neg worse, if_neg fun bad => worse (insecure bad)]
    split <;> split <;> (try split) <;> (try split) <;> omega

/-! ### What the comparison is -/

/-- One version is not above another, as the panel compares them or as semver orders them. -/
def NotAbove (first second : List Char) (one other : Parsed) : Prop :=
  (∃ order, compareVersions first second = some order ∧ order ≤ 0) ∨ ¬ Precedes other one

/-- The comparison does for two versions what it is for: it answers, with the sign turned round
when the versions are, it is zero between a version and itself, it leads on, it says what semver
says, and no release is judged worse for the version that is not below the other. -/
structure Right (first second : List Char) (one other : Parsed) : Prop where
  answers : ∃ order back, compareVersions first second = some order ∧
    compareVersions second first = some back ∧ back.sign = -order.sign
  reflexive : compareVersions first first = some 0
  transitive : ∀ third last order next, parseVersion third = some last →
    compareVersions first second = some order → order ≤ 0 →
    compareVersions second third = some next → next ≤ 0 →
    ∃ whole, compareVersions first third = some whole ∧ whole ≤ 0
  precedence : ∀ order, compareVersions first second = some order →
    (order < 0 ↔ Precedes one other) ∧ (0 < order ↔ Precedes other one)
  verdict : ∀ readUrl stringify raw release,
    parseRelease readUrl stringify raw = .ok release → NotAbove first second one other →
    (classifyPanel second release).state.rank ≤ (classifyPanel first release).state.rank

/-- For any two versions the comparison is what it is for exactly if no double hides where their
identifiers part. -/
theorem ordered_iff (first second : List Char) (one other : Parsed)
    (parsed : parseVersion first = some one) (parsed' : parseVersion second = some other) :
    Right first second one other ↔ ¬ Hides one other ∧ ¬ Hides other one := by
  have compared := compareVersions_of_parsed parsed parsed'
  have follows := follows_parsed one other
  constructor
  · intro right
    obtain ⟨forth, back⟩ := right.precedence _ compared
    exact (precedes_iff one other).mp
      ⟨follows.1.symm.trans forth, follows.2.symm.trans back⟩
  · intro plain
    obtain ⟨forth, back⟩ := (precedes_iff one other).mpr plain
    refine ⟨⟨_, _, compared, compareVersions_of_parsed parsed' parsed, ?_⟩, ?_, ?_, ?_, ?_⟩
    · have turned := follows_parsed other one
      have negative : compareParsed other one < 0 ↔ 0 < compareParsed one other :=
        turned.1.trans follows.2.symm
      have positive : 0 < compareParsed other one ↔ compareParsed one other < 0 :=
        turned.2.trans follows.1.symm
      obtain less | level | more := lt_trichotomy (compareParsed one other) 0
      · rw [Int.sign_eq_neg_one_of_neg less, Int.sign_eq_one_of_pos (positive.mpr less)]
        rfl
      · rw [level, show compareParsed other one = 0 by omega]
        rfl
      · rw [Int.sign_eq_one_of_pos more, Int.sign_eq_neg_one_of_neg (negative.mpr more)]
    · have self := follows_parsed one one
      have notLess := self.1.not.mpr (lt_irrefl _)
      have notMore := self.2.not.mpr (lt_irrefl _)
      rw [compareVersions_of_parsed parsed parsed, show compareParsed one one = 0 by omega]
    · intro third last order next known here less there more
      cases compared.symm.trans here
      cases (compareVersions_of_parsed parsed' known).symm.trans there
      refine ⟨_, compareVersions_of_parsed parsed known, ?_⟩
      have near := follows.2.not.mp (not_lt.mpr less)
      have far := (follows_parsed other last).2.not.mp (not_lt.mpr more)
      exact not_lt.mp ((follows_parsed one last).2.not.mpr
        (not_lt.mpr ((not_lt.mp near).trans (not_lt.mp far))))
    · intro order here
      cases compared.symm.trans here
      exact ⟨follows.1.trans forth, follows.2.trans back⟩
    · rintro readUrl stringify raw release read (⟨order, here, less⟩ | notAbove)
      · cases compared.symm.trans here
        exact rank_le_of_key_le (Or.inl rfl) parsed parsed'
          (not_lt.mp (follows.2.not.mp (not_lt.mpr less))) (released_of_parseRelease read)
      · exact rank_le_of_key_le (Or.inr rfl) parsed parsed' (not_lt.mp notAbove)
          (released_of_parseRelease read)

/-- A candidate and its release. -/
theorem ordered_iff_candidate :
    Right "1.0.0-rc.2".toList "1.0.0".toList ⟨1, 0, 0, ["rc".toList, "2".toList]⟩ ⟨1, 0, 0, []⟩ ↔
      ¬ Hides ⟨1, 0, 0, ["rc".toList, "2".toList]⟩ ⟨1, 0, 0, []⟩ ∧
        ¬ Hides ⟨1, 0, 0, []⟩ ⟨1, 0, 0, ["rc".toList, "2".toList]⟩ :=
  ordered_iff _ _ _ _ (by decide +kernel) (by decide +kernel)

/-- Two pre-releases whose numbers have one double: level to the panel, and not to semver. -/
theorem level_with_another_number :
    ∃ one other, parseVersion "1.0.0-9007199254740992".toList = some one ∧
      parseVersion "1.0.0-9007199254740993".toList = some other ∧ Precedes one other ∧
      compareVersions "1.0.0-9007199254740992".toList "1.0.0-9007199254740993".toList = some 0 ∧
      ¬ Right "1.0.0-9007199254740992".toList "1.0.0-9007199254740993".toList one other := by
  have level : compareVersions "1.0.0-9007199254740992".toList "1.0.0-9007199254740993".toList =
      some 0 := by decide +kernel
  have before : Precedes ⟨1, 0, 0, ["9007199254740992".toList]⟩
      ⟨1, 0, 0, ["9007199254740993".toList]⟩ := by
    unfold Precedes
    rw [key_lt_iff]
    refine Or.inr ⟨⟨rfl, rfl, rfl⟩, ?_⟩
    rw [preKey_of_ne _ (cons_ne_nil _ _), preKey_of_ne _ (cons_ne_nil _ _),
      WithTop.coe_lt_coe, map_cons, map_cons, cons_lt_cons_iff,
      identifierKey_number _ (by decide), identifierKey_number _ (by decide)]
    refine Or.inl (Sum.Lex.inl_lt_inl_iff.mpr (WithTop.coe_lt_coe.mpr ?_))
    decide +kernel
  exact ⟨_, _, by decide +kernel, by decide +kernel, before, level,
    fun right => absurd ((right.precedence 0 level).1.mpr before) (lt_irrefl 0)⟩

end Geeboard.Panel.Releases
