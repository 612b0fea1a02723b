/-
This file is about texts written one after another with a mark between them, and about
the place where two marks stand side by side. No part is empty and none holds the mark,
so the parts can be read back, and a doubled mark is none of their own.
-/

import Mathlib.Data.List.Basic

namespace Text

open List

variable {mark : Char}

/-! ### Parts with a mark between them -/

/-- Parts with a mark between them. -/
def separated (mark : Char) (parts : List (List Char)) : List Char := [mark].intercalate parts

/-- A part that can be read back: it holds something, and not the mark. -/
def IsPiece (mark : Char) (part : List Char) : Prop := part ≠ [] ∧ mark ∉ part

/-- What is on the two sides of the first two marks that stand side by side. -/
def atDouble (mark : Char) : List Char → Option (List Char × List Char)
  | first :: second :: rest =>
    if first = mark ∧ second = mark then some ([], rest)
    else (atDouble mark (second :: rest)).map fun sides => (first :: sides.1, sides.2)
  | _ => none

@[simp] theorem separated_nil : separated mark [] = [] := rfl

@[simp] theorem separated_singleton (part : List Char) : separated mark [part] = part :=
  intercalate_singleton

theorem separated_cons_cons (part next : List Char) (parts : List (List Char)) :
    separated mark (part :: next :: parts) = part ++ mark :: separated mark (next :: parts) := by
  unfold separated
  rw [intercalate_cons_cons, append_assoc]
  rfl

variable {parts : List (List Char)}

/-- What is in texts put together is in one of them, or in what stands between. -/
theorem mem_intercalate {char : Char} {separator : List Char}
    (member : char ∈ separator.intercalate parts) :
    char ∈ separator ∨ ∃ part ∈ parts, char ∈ part := by
  unfold List.intercalate at member
  obtain ⟨part, inside, there⟩ := mem_flatten.mp member
  induction parts with
  | nil => cases inside
  | cons first parts inductionHypothesis =>
    cases parts with
    | nil => exact Or.inr ⟨part, inside, there⟩
    | cons second parts =>
      rw [intersperse_cons_cons] at inside
      rcases mem_cons.mp inside with rfl | rest
      · exact Or.inr ⟨_, mem_cons_self, there⟩
      · rcases mem_cons.mp rest with rfl | more
        · exact Or.inl there
        · refine (inductionHypothesis ?_ more).imp_right ?_
          · exact mem_flatten.mpr ⟨part, more, there⟩
          · rintro ⟨one, within, has⟩
            exact ⟨one, mem_cons_of_mem _ within, has⟩

theorem mem_intercalate_of_mem {char : Char} {separator part : List Char} (member : part ∈ parts)
    (inside : char ∈ part) :
    char ∈ separator.intercalate parts := by
  induction parts with
  | nil => cases member
  | cons first parts inductionHypothesis =>
    by_cases none_ : parts = []
    · obtain rfl := mem_singleton.mp (none_ ▸ member)
      rw [none_, intercalate_singleton]
      exact inside
    · rw [intercalate_cons_of_ne_nil none_]
      obtain rfl | later := mem_cons.mp member
      · exact mem_append_left _ (mem_append_left _ inside)
      · exact mem_append_right _ (inductionHypothesis later)

/-- Parts with a mark between them begin with the first part, and then with the mark. -/
theorem exists_separated_cons (mark : Char) (part : List Char) (parts : List (List Char)) :
    ∃ tail, separated mark (part :: parts) = part ++ tail ∧
      (tail = [] ∨ ∃ more, tail = mark :: more) := by
  cases parts with
  | nil => exact ⟨[], by rw [separated_singleton, append_nil], Or.inl rfl⟩
  | cons next parts =>
    exact ⟨_, separated_cons_cons part next parts, Or.inr ⟨_, rfl⟩⟩

theorem splitOn_separated (some_ : parts ≠ []) (pieces : ∀ part ∈ parts, IsPiece mark part) :
    (separated mark parts).splitOn mark = parts :=
  splitOn_intercalate mark (fun part member => (pieces part member).2) some_

theorem separated_ne_nil (some_ : parts ≠ []) (pieces : ∀ part ∈ parts, IsPiece mark part) :
    separated mark parts ≠ [] := by
  cases parts with
  | nil => exact absurd rfl some_
  | cons part parts =>
    obtain ⟨tail, same, -⟩ := exists_separated_cons mark part parts
    rw [same]
    exact append_ne_nil_of_left_ne_nil (pieces part mem_cons_self).1 tail

theorem map_separated (change : Char → Char) (kept : change mark = mark)
    (parts : List (List Char)) :
    (separated mark parts).map change = separated mark (parts.map (List.map change)) := by
  induction parts with
  | nil => rfl
  | cons part parts inductionHypothesis =>
    cases parts with
    | nil => rw [map_singleton, separated_singleton, separated_singleton]
    | cons next parts =>
      rw [separated_cons_cons, map_append, map_cons, kept, inductionHypothesis]
      exact (separated_cons_cons _ _ _).symm

theorem mem_separated {char : Char} (member : char ∈ separated mark parts) :
    char = mark ∨ ∃ part ∈ parts, char ∈ part := by
  induction parts with
  | nil => cases member
  | cons part parts inductionHypothesis =>
    cases parts with
    | nil =>
      rw [separated_singleton] at member
      exact Or.inr ⟨part, mem_cons_self, member⟩
    | cons next parts =>
      rw [separated_cons_cons] at member
      rcases mem_append.mp member with here | there
      · exact Or.inr ⟨part, mem_cons_self, here⟩
      rcases mem_cons.mp there with same | later
      · exact Or.inl same
      · refine (inductionHypothesis later).imp_right ?_
        rintro ⟨other, inside, holds⟩
        exact ⟨other, mem_cons_of_mem _ inside, holds⟩

theorem count_separated (pieces : ∀ part ∈ parts, IsPiece mark part) :
    (separated mark parts).count mark = parts.length - 1 := by
  induction parts with
  | nil => rfl
  | cons part parts inductionHypothesis =>
    obtain ⟨here, there⟩ := forall_mem_cons.mp pieces
    cases parts with
    | nil =>
      rw [separated_singleton, count_eq_zero.mpr here.2]
      rfl
    | cons next parts =>
      rw [separated_cons_cons, count_append, count_eq_zero.mpr here.2,
        count_cons_self, inductionHypothesis there, Nat.zero_add]
      rfl

/-! ### The place of a doubled mark -/

/-- What is on the two sides of a doubled mark is the text. -/
theorem eq_of_atDouble {text front back : List Char}
    (found : atDouble mark text = some (front, back)) : text = front ++ mark :: mark :: back := by
  fun_induction atDouble mark text generalizing front with
  | case1 first second rest both =>
    cases found
    rw [both.1, both.2]
    rfl
  | case2 first second rest _ inductionHypothesis =>
    obtain ⟨sides, there, same⟩ := Option.map_eq_some_iff.mp found
    cases same
    exact congrArg (first :: ·) (inductionHypothesis there)
  | case3 => cases found

theorem atDouble_cons_of_ne {char : Char} (other : char ≠ mark) (text : List Char) :
    atDouble mark (char :: text) =
      (atDouble mark text).map fun sides => (char :: sides.1, sides.2) := by
  cases text with
  | nil => rfl
  | cons next text =>
    rw [atDouble, if_neg fun both => other both.1]

/-- A part holds no mark, so what is doubled is doubled behind it. -/
theorem atDouble_append {part : List Char} (clean : mark ∉ part) (text : List Char) :
    atDouble mark (part ++ text) =
      (atDouble mark text).map fun sides => (part ++ sides.1, sides.2) := by
  induction part with
  | nil => exact (Option.map_id' (x := atDouble mark text)).symm
  | cons char part inductionHypothesis =>
    have other : char ≠ mark := fun same => clean (same ▸ mem_cons_self)
    rw [cons_append, atDouble_cons_of_ne other,
      inductionHypothesis fun member => clean (mem_cons_of_mem _ member), Option.map_map]
    rfl

theorem atDouble_separated_append (pieces : ∀ part ∈ parts, IsPiece mark part) (rest : List Char) :
    atDouble mark (separated mark parts ++ mark :: mark :: rest) =
      some (separated mark parts, rest) := by
  have alone : atDouble mark (mark :: mark :: rest) = some ([], rest) := if_pos ⟨rfl, rfl⟩
  induction parts with
  | nil => exact alone
  | cons part parts inductionHypothesis =>
    obtain ⟨here, there⟩ := forall_mem_cons.mp pieces
    cases parts with
    | nil =>
      rw [separated_singleton, atDouble_append here.2, alone, Option.map_some, append_nil]
    | cons next parts =>
      have begins : ∃ char tail, char ≠ mark ∧ separated mark (next :: parts) = char :: tail := by
        obtain ⟨tail, same, -⟩ := exists_separated_cons mark next parts
        obtain ⟨some_, clean⟩ := there next mem_cons_self
        obtain ⟨char, more, rfl⟩ := exists_cons_of_ne_nil some_
        exact ⟨char, more ++ tail, fun equal => clean (equal ▸ mem_cons_self), same⟩
      obtain ⟨char, tail, other, same⟩ := begins
      have later := inductionHypothesis there
      rw [separated_cons_cons, append_assoc, atDouble_append here.2, cons_append]
      rw [same] at later ⊢
      rw [cons_append, atDouble, if_neg fun both => other both.2]
      rw [cons_append] at later
      rw [later]
      rfl

theorem atDouble_separated (pieces : ∀ part ∈ parts, IsPiece mark part) :
    atDouble mark (separated mark parts) = none := by
  induction parts with
  | nil => rfl
  | cons part parts inductionHypothesis =>
    obtain ⟨here, there⟩ := forall_mem_cons.mp pieces
    cases parts with
    | nil =>
      have behind := atDouble_append here.2 []
      rw [append_nil] at behind
      rw [separated_singleton, behind]
      rfl
    | cons next parts =>
      have later := inductionHypothesis there
      obtain ⟨tail, same, -⟩ := exists_separated_cons mark next parts
      obtain ⟨some_, clean⟩ := there next mem_cons_self
      obtain ⟨char, more, rfl⟩ := exists_cons_of_ne_nil some_
      have other : char ≠ mark := fun equal => clean (equal ▸ mem_cons_self)
      rw [separated_cons_cons, atDouble_append here.2]
      rw [same, cons_append] at later ⊢
      rw [atDouble, if_neg fun both => other both.2, later]
      rfl

end Text
