/-
This file is about path texts, the way a POSIX machine reads them: a text is cut
at its separators, a dot stands for nothing and two dots take back what came
before. A place is an absolute path in its normal form. What is read from a place
on and stays inside it lies at or under it, and a path made of proper names leads
to exactly these names.
-/

import Mathlib.Data.List.Basic

namespace Text

open List

/-! ### Names and segments -/

/-- What a directory may call an entry: not empty, no separator in it, and neither of the
two names that stand for a directory. -/
def IsPart (part : List Char) : Prop :=
  part ≠ [] ∧ '/' ∉ part ∧ part ≠ ['.'] ∧ part ≠ ['.', '.']

instance (part : List Char) : Decidable (IsPart part) := by
  unfold IsPart
  infer_instance

/-- What stands between the separators of a path. -/
def segments (text : List Char) : List (List Char) :=
  text.splitOn '/'

/-- Names joined by separators. -/
def joined (parts : List (List Char)) : List Char :=
  ['/'].intercalate parts

theorem segments_append (first second : List Char) :
    segments (first ++ '/' :: second) = segments first ++ segments second :=
  splitOn_append_cons_self first second

theorem segments_joined (parts : List (List Char)) (proper : ∀ part ∈ parts, IsPart part)
    (some' : parts ≠ []) : segments (joined parts) = parts :=
  splitOn_intercalate '/' (fun part member => (proper part member).2.1) some'

theorem not_mem_segment (text segment : List Char) (member : segment ∈ segments text) :
    '/' ∉ segment := by
  induction text generalizing segment with
  | nil =>
    rw [mem_singleton.mp member]
    exact not_mem_nil
  | cons char text inductionHypothesis =>
    unfold segments at member inductionHypothesis
    rw [splitOn_cons_eq_if_modifyHead] at member
    split at member
    · obtain rfl | later := mem_cons.mp member
      · exact not_mem_nil
      · exact inductionHypothesis segment later
    · next other =>
      cases rest : text.splitOn '/' with
      | nil => exact absurd rest (splitOn_ne_nil '/' text)
      | cons first others =>
        rw [rest] at member inductionHypothesis
        obtain rfl | later := mem_cons.mp member
        · rintro slash
          obtain here | later := mem_cons.mp slash
          · exact other (by rw [here]; exact BEq.rfl)
          · exact inductionHypothesis first mem_cons_self later
        · exact inductionHypothesis segment (mem_cons_of_mem _ later)

/-! ### Walking along segments -/

/-- One segment taken, with the names walked through so far, the last one first. A walk that
may leave where it began keeps the two dots it has nothing to take back for. -/
def enter (above : Bool) (walked : List (List Char)) (segment : List Char) :
    List (List Char) :=
  if segment = [] ∨ segment = ['.'] then walked
  else if segment = ['.', '.'] then
    match walked with
    | [] => if above then [segment] else []
    | last :: earlier => if last = ['.', '.'] then segment :: walked else earlier
  else segment :: walked

/-- A path in its normal form, without the separators in front of it. -/
def normalParts (above : Bool) (text : List Char) : List (List Char) :=
  ((segments text).foldl (enter above) []).reverse

theorem enter_part (above : Bool) (walked : List (List Char)) (part : List Char)
    (proper : IsPart part) : enter above walked part = part :: walked := by
  unfold enter
  rw [if_neg (not_or.mpr ⟨proper.1, proper.2.2.1⟩), if_neg proper.2.2.2]

theorem foldl_enter_parts (above : Bool) (parts walked : List (List Char))
    (proper : ∀ part ∈ parts, IsPart part) :
    parts.foldl (enter above) walked = parts.reverse ++ walked := by
  induction parts generalizing walked with
  | nil => rfl
  | cons part parts inductionHypothesis =>
    rw [foldl_cons, enter_part above walked part (proper part mem_cons_self),
      inductionHypothesis _ (fun later member => proper later (mem_cons_of_mem _ member)),
      reverse_cons, append_assoc]
    rfl

theorem enter_proper (walked : List (List Char)) (segment : List Char)
    (clean : '/' ∉ segment) (proper : ∀ part ∈ walked, IsPart part) :
    ∀ part ∈ enter false walked segment, IsPart part := by
  unfold enter
  split
  · exact proper
  · next solid =>
    split
    · split
      · exact fun part member => nomatch member
      · next last earlier =>
        rw [if_neg (proper last mem_cons_self).2.2.2]
        exact fun part member => proper part (mem_cons_of_mem _ member)
    · next other =>
      intro part member
      obtain rfl | earlier := mem_cons.mp member
      · rw [not_or] at solid
        exact ⟨solid.1, clean, solid.2, other⟩
      · exact proper part earlier

theorem foldl_enter_proper (pieces walked : List (List Char))
    (clean : ∀ segment ∈ pieces, '/' ∉ segment) (proper : ∀ part ∈ walked, IsPart part) :
    ∀ part ∈ pieces.foldl (enter false) walked, IsPart part := by
  induction pieces generalizing walked with
  | nil => exact proper
  | cons segment pieces inductionHypothesis =>
    exact inductionHypothesis _
      (fun later member => clean later (mem_cons_of_mem _ member))
      (enter_proper walked segment (clean segment mem_cons_self) proper)

/-! ### Places -/

/-- An absolute path in its normal form: the names that lead to it from the root. -/
structure Place where
  parts : List (List Char)
  proper : ∀ part ∈ parts, IsPart part
  deriving DecidableEq

theorem Place.ext_parts {first second : Place} (same : first.parts = second.parts) :
    first = second := by
  obtain ⟨parts, proper⟩ := first
  obtain ⟨others, proper'⟩ := second
  have equal : parts = others := same
  subst equal
  rfl

/-- A place as a path. -/
def Place.text (place : Place) : List Char :=
  '/' :: joined place.parts

/-- The place a text leads to from another place. -/
def Place.resolve (start : Place) (text : List Char) : Place where
  parts :=
    ((segments text).foldl (enter false)
      (if text.head? = some '/' then [] else start.parts.reverse)).reverse
  proper := by
    intro part member
    refine foldl_enter_proper (segments text) _ (not_mem_segment text) ?_ part
      (mem_reverse.mp member)
    split
    · exact fun part member => nomatch member
    · exact fun part member => start.proper part (mem_reverse.mp member)

/-- The directory a place is in: the root is in itself. -/
def Place.parent (place : Place) : Place where
  parts := place.parts.dropLast
  proper part member := place.proper part (dropLast_subset _ member)

/-- A separator at the end of a text leads nowhere else. -/
theorem Place.resolve_slash (start : Place) (text : List Char) (some' : text ≠ []) :
    start.resolve (text ++ ['/']) = start.resolve text := by
  have cut : segments (text ++ ['/']) = segments text ++ [[]] := segments_append text []
  have head : (text ++ ['/']).head? = text.head? := head?_append_of_ne_nil _ some'
  refine Place.ext_parts ?_
  show List.reverse (List.foldl _ _ (segments (text ++ ['/']))) = _
  rw [cut, head, foldl_append]
  rfl

/-- A path made of names leads down those names. -/
theorem Place.resolve_joined (start : Place) (parts : List (List Char)) (some' : parts ≠ [])
    (proper : ∀ part ∈ parts, IsPart part) :
    (start.resolve (joined parts)).parts = start.parts ++ parts := by
  have relative : (joined parts).head? ≠ some '/' := by
    intro slash
    obtain ⟨rest, begins⟩ := head?_eq_some_iff.mp slash
    have cut := segments_joined parts proper some'
    rw [begins, show '/' :: rest = [] ++ '/' :: rest from rfl, segments_append] at cut
    have empty : [] ∈ parts := by
      rw [← cut]
      exact mem_append_left _ (mem_singleton.mpr rfl)
    exact (proper [] empty).1 rfl
  show List.reverse (List.foldl _ _ (segments (joined parts))) = _
  rw [segments_joined parts proper some', if_neg relative, foldl_enter_parts false _ _ proper,
    reverse_append, reverse_reverse, reverse_reverse]

/-- How long names are, each with a separator. -/
def weight : List (List Char) → Nat
  | [] => 0
  | part :: parts => part.length + 1 + weight parts

theorem weight_append (first second : List (List Char)) :
    weight (first ++ second) = weight first + weight second := by
  induction first with
  | nil => exact (Nat.zero_add _).symm
  | cons part first inductionHypothesis =>
    rw [cons_append, weight, weight, inductionHypothesis]
    omega

theorem weight_reverse (parts : List (List Char)) : weight parts.reverse = weight parts := by
  induction parts with
  | nil => rfl
  | cons part parts inductionHypothesis =>
    rw [reverse_cons, weight_append, inductionHypothesis, weight, weight, weight]
    omega

theorem weight_segments (text : List Char) : weight (segments text) = text.length + 1 := by
  induction text with
  | nil => rfl
  | cons char text inductionHypothesis =>
    unfold segments at inductionHypothesis ⊢
    rw [splitOn_cons_eq_if_modifyHead, length_cons]
    split
    · rw [weight, inductionHypothesis, length_nil]
      omega
    · cases rest : text.splitOn '/' with
      | nil => exact absurd rest (splitOn_ne_nil '/' text)
      | cons first others =>
        rw [rest, weight] at inductionHypothesis
        rw [modifyHead_cons, weight, length_cons]
        omega

theorem weight_enter (walked : List (List Char)) (segment : List Char) :
    weight (enter false walked segment) ≤ weight walked + (segment.length + 1) := by
  unfold enter
  split
  · omega
  · split
    · split
      · exact Nat.zero_le _
      · next last earlier =>
        split
        · simp only [weight]
          omega
        · simp only [weight]
          omega
    · simp only [weight]
      omega

theorem weight_foldl_enter (pieces walked : List (List Char)) :
    weight (pieces.foldl (enter false) walked) ≤ weight walked + weight pieces := by
  induction pieces generalizing walked with
  | nil => exact Nat.le_refl _
  | cons segment pieces inductionHypothesis =>
    have first := weight_enter walked segment
    have rest := inductionHypothesis (enter false walked segment)
    rw [foldl_cons, weight]
    omega

/-- A text that does not begin at the root leads down by no more than it is long. -/
theorem Place.weight_resolve (start : Place) (text : List Char) :
    weight (start.resolve text).parts ≤ weight start.parts + (text.length + 1) := by
  show weight (List.reverse (List.foldl _ _ (segments text))) ≤ _
  rw [weight_reverse, ← weight_segments]
  refine Nat.le_trans (weight_foldl_enter _ _) (Nat.add_le_add_right ?_ _)
  split
  · exact Nat.zero_le _
  · exact Nat.le_of_eq (weight_reverse _)

/-- Lying at a place or under it. -/
def Place.Within (root place : Place) : Prop :=
  root.parts <+: place.parts

instance (root place : Place) : Decidable (root.Within place) := by
  unfold Place.Within
  infer_instance

/-- A place's path with a separator behind it. -/
def Place.textWithSeparator (place : Place) : List Char :=
  if place.text.getLast? = some '/' then place.text else place.text ++ ['/']

theorem Place.segments_text (place : Place) (some' : place.parts ≠ []) :
    segments place.text = [] :: place.parts := by
  have cut : segments ([] ++ '/' :: joined place.parts) = _ :=
    segments_append [] (joined place.parts)
  rw [segments_joined place.parts place.proper some'] at cut
  exact cut

theorem joined_append (first second : List (List Char)) (some' : first ≠ [])
    (more : second ≠ []) : joined (first ++ second) = joined first ++ '/' :: joined second := by
  induction first with
  | nil => exact absurd rfl some'
  | cons part first inductionHypothesis =>
    unfold joined at inductionHypothesis ⊢
    cases first with
    | nil =>
      rw [singleton_append, intercalate_cons_of_ne_nil more,
        intercalate_singleton, append_assoc]
      rfl
    | cons next first =>
      have rest := inductionHypothesis (cons_ne_nil next first)
      have front : ['/'].intercalate (part :: (next :: (first ++ second))) =
          part ++ ['/'] ++ ['/'].intercalate (next :: (first ++ second)) :=
        intercalate_cons_of_ne_nil (cons_ne_nil _ _)
      rw [cons_append, cons_append, front, ← cons_append, rest,
        intercalate_cons_of_ne_nil (cons_ne_nil next first), ← append_assoc]

theorem Place.getLast_text (place : Place) (some' : place.parts ≠ []) :
    place.text.getLast? ≠ some '/' := by
  intro slash
  obtain ⟨before, ends⟩ := getLast?_eq_some_iff.mp slash
  have cut : segments place.text = segments before ++ segments [] := by
    rw [ends]
    exact segments_append before []
  have last : [] ∈ place.parts := by
    rw [place.segments_text some'] at cut
    have whole : ([] :: place.parts).getLast? = some [] := by
      rw [cut]
      exact getLast?_concat
    cases parts : place.parts with
    | nil => exact absurd parts some'
    | cons part parts =>
      rw [parts, getLast?_cons_cons] at whole
      exact mem_of_getLast? whole
  exact (place.proper [] last).1 rfl

/-- A place lies at or under another exactly if its path is the other's, or begins with the
other's and a separator. -/
theorem Place.within_iff_text (root place : Place) :
    root.Within place ↔
      (place.text = root.text ∨ root.textWithSeparator <+: place.text) := by
  unfold Place.Within
  by_cases top : root.parts = []
  · have separator : root.textWithSeparator = ['/'] := by
      unfold Place.textWithSeparator Place.text
      rw [top]
      rfl
    rw [top, separator]
    exact iff_of_true nil_prefix
      (Or.inr (cons_prefix_cons.mpr ⟨rfl, nil_prefix⟩))
  have separator : root.textWithSeparator = root.text ++ ['/'] := by
    unfold Place.textWithSeparator
    rw [if_neg (root.getLast_text top)]
  rw [separator]
  constructor
  · rintro ⟨rest, split⟩
    by_cases same : rest = []
    · rw [same, append_nil] at split
      exact Or.inl (by rw [Place.text, Place.text, split])
    · refine Or.inr ⟨joined rest, ?_⟩
      unfold Place.text
      rw [← split, joined_append _ _ top same]
      simp
  · rintro (same | ⟨rest, split⟩)
    · have equal : joined place.parts = joined root.parts := tail_eq_of_cons_eq same
      by_cases empty : place.parts = []
      · have bare : segments root.text = segments place.text := by rw [same]
        rw [root.segments_text top] at bare
        unfold Place.text at bare
        rw [empty] at bare
        have tail : root.parts = [[]] := tail_eq_of_cons_eq bare
        exact absurd rfl (root.proper [] (by rw [tail]; exact mem_cons_self)).1
      · have cut : segments place.text = segments root.text := by rw [same]
        rw [root.segments_text top, place.segments_text empty] at cut
        have same' := tail_eq_of_cons_eq cut
        exact same' ▸ prefix_rfl
    · have cut : segments place.text = segments root.text ++ segments rest := by
        rw [← split, append_assoc]
        exact segments_append root.text rest
      rw [root.segments_text top] at cut
      by_cases empty : place.parts = []
      · unfold Place.text at cut
        rw [empty] at cut
        have tail : [[]] = root.parts ++ segments rest := tail_eq_of_cons_eq cut
        obtain ⟨part, parts, named⟩ := exists_cons_of_ne_nil top
        rw [named, cons_append] at tail
        have first : part = [] := (head_eq_of_cons_eq tail).symm
        exact absurd first (root.proper part (by rw [named]; exact mem_cons_self)).1
      · rw [place.segments_text empty] at cut
        exact ⟨segments rest, (tail_eq_of_cons_eq cut).symm⟩

/-- What two places differ in, read from the first: the way up and the way down again. -/
def Place.relative (start target : Place) : List (List Char) :=
  let common := ((start.parts.zip target.parts).takeWhile fun pair => pair.1 = pair.2).length
  List.replicate (start.parts.length - common) ['.', '.'] ++ target.parts.drop common

/-! ### Normal forms -/

/-- A path in its normal form, as a text. -/
def normalize (text : List Char) : List Char :=
  if text = [] then ['.']
  else
    let absolute : Bool := text.head? = some '/'
    let trailing : Bool := text.getLast? = some '/'
    let path := joined (normalParts (!absolute) text)
    if path = [] then if absolute then ['/'] else if trailing then ['.', '/'] else ['.']
    else
      let path := if trailing then path ++ ['/'] else path
      if absolute then '/' :: path else path

/-- Whether a relative path in its normal form leads out of where it begins. -/
def leadsOut (text : List Char) : Bool :=
  text = ['.', '.'] || ['.', '.', '/'].isPrefixOf text

/-- The two dots that lead up. -/
def dots : List Char := ['.', '.']

/-- Names behind as many steps up as there are. -/
def IsUpward (parts : List (List Char)) : Prop :=
  ∃ ups below, parts = List.replicate ups dots ++ below ∧ ∀ part ∈ below, IsPart part

theorem enter_upward (above : Bool) (walked : List (List Char)) (segment : List Char)
    (clean : '/' ∉ segment) (upward : IsUpward walked.reverse) :
    IsUpward (enter above walked segment).reverse := by
  obtain ⟨ups, below, split, proper⟩ := upward
  have walked' : walked = below.reverse ++ List.replicate ups dots := by
    rw [← reverse_reverse walked, split, reverse_append, reverse_replicate]
  have stays : IsUpward walked.reverse := ⟨ups, below, split, proper⟩
  unfold enter
  split
  · exact stays
  · next solid =>
    rw [not_or] at solid
    split
    · next up =>
      cases reversed : below.reverse with
      | nil =>
        rw [reversed, nil_append] at walked'
        cases ups with
        | zero =>
          rw [walked']
          dsimp only [replicate_zero]
          split
          · exact ⟨1, [], by rw [up]; rfl, fun part member => absurd member not_mem_nil⟩
          · exact ⟨0, [], rfl, fun part member => absurd member not_mem_nil⟩
        | succ ups =>
          rw [walked', replicate_succ]
          dsimp only
          rw [if_pos (show dots = ['.', '.'] from rfl), up]
          refine ⟨ups + 2, [], ?_, fun part member => absurd member not_mem_nil⟩
          rw [append_nil, ← replicate_succ, show ['.', '.'] = dots from rfl,
            ← replicate_succ, reverse_replicate]
      | cons last earlier =>
        have member : last ∈ below := by
          rw [← mem_reverse, reversed]
          exact mem_cons_self
        rw [walked', reversed, cons_append]
        dsimp only
        rw [if_neg (proper last member).2.2.2]
        refine ⟨ups, earlier.reverse, ?_, fun part there => proper part ?_⟩
        · rw [reverse_append, reverse_replicate]
        · rw [← mem_reverse, reversed]
          exact mem_cons_of_mem _ (mem_reverse.mp there)
    · next other =>
      refine ⟨ups, below ++ [segment], ?_, fun part member => ?_⟩
      · rw [reverse_cons, split, append_assoc]
      · obtain there | last := mem_append.mp member
        · exact proper part there
        · rw [mem_singleton.mp last]
          exact ⟨solid.1, clean, solid.2, other⟩

theorem normalParts_upward (above : Bool) (text : List Char) :
    IsUpward (normalParts above text) := by
  have general : ∀ (pieces walked : List (List Char)), (∀ segment ∈ pieces, '/' ∉ segment) →
      IsUpward walked.reverse → IsUpward (pieces.foldl (enter above) walked).reverse := by
    intro pieces
    induction pieces with
    | nil => exact fun walked _ upward => upward
    | cons segment pieces inductionHypothesis =>
      intro walked clean upward
      exact inductionHypothesis _ (fun later member => clean later (mem_cons_of_mem _ member))
        (enter_upward above walked segment (clean segment mem_cons_self) upward)
  exact general (segments text) [] (not_mem_segment text)
    ⟨0, [], rfl, fun part member => absurd member not_mem_nil⟩

theorem relative_upward (start target : Place) : IsUpward (start.relative target) :=
  ⟨_, _, rfl, fun part member => target.proper part (mem_of_mem_drop member)⟩

/-- A path that does not lead out has no step up left in it. -/
theorem upward_stays {parts : List (List Char)} (upward : IsUpward parts)
    (stays : leadsOut (joined parts) = false) : ∀ part ∈ parts, IsPart part := by
  obtain ⟨ups, below, rfl, proper⟩ := upward
  cases ups with
  | zero =>
    rw [replicate_zero, nil_append]
    exact proper
  | succ ups =>
    exfalso
    rw [replicate_succ, cons_append] at stays
    by_cases single : List.replicate ups dots ++ below = []
    · rw [single] at stays
      exact absurd stays (by decide)
    · rw [← singleton_append, joined_append [dots] _ (cons_ne_nil _ _) single] at stays
      have begins : leadsOut (joined [dots] ++ '/' :: joined (List.replicate ups dots ++ below)) =
          true := by
        unfold leadsOut
        rw [Bool.or_eq_true]
        exact Or.inr rfl
      rw [begins] at stays
      exact absurd stays (by decide)

/-- What a path is walked along when it does not lead out: no step up. -/
theorem joined_stays {parts : List (List Char)} (upward : IsUpward parts)
    (stays : leadsOut (joined parts) = false) : ∀ part ∈ segments (joined parts), part ≠ dots := by
  have proper := upward_stays upward stays
  by_cases empty : parts = []
  · rw [empty]
    exact fun part member => by rw [mem_singleton.mp member]; decide
  · rw [segments_joined parts proper empty]
    exact fun part member => (proper part member).2.2.2

theorem leadsOut_append (path rest : List Char) (out : leadsOut path = true) :
    leadsOut (path ++ '/' :: rest) = true := by
  unfold leadsOut at out ⊢
  rw [Bool.or_eq_true] at out ⊢
  refine Or.inr (List.isPrefixOf_iff_prefix.mpr ?_)
  obtain same | begins := out
  · rw [of_decide_eq_true same]
    exact ⟨rest, rfl⟩
  · exact (List.isPrefixOf_iff_prefix.mp begins).trans (prefix_append _ _)

theorem segments_trailing {parts : List (List Char)} (proper : ∀ part ∈ parts, IsPart part)
    (some' : parts ≠ []) (trailing : Bool) :
    ∀ part ∈ segments (if trailing then joined parts ++ ['/'] else joined parts), part ≠ dots := by
  intro part member
  cases trailing with
  | false =>
    rw [if_neg Bool.false_ne_true, segments_joined parts proper some'] at member
    exact (proper part member).2.2.2
  | true =>
    have cut : segments (joined parts ++ '/' :: []) = _ := segments_append (joined parts) []
    rw [if_pos rfl, cut, segments_joined parts proper some'] at member
    obtain there | last := mem_append.mp member
    · exact (proper part there).2.2.2
    · rw [mem_singleton.mp last]
      decide

/-- A path in its normal form that does not lead out has no step up left in it. -/
theorem normalize_stays (text : List Char) (stays : leadsOut (normalize text) = false) :
    ∀ part ∈ segments (normalize text), part ≠ dots := by
  unfold normalize at stays ⊢
  by_cases empty : text = []
  · rw [if_pos empty]
    decide
  · rw [if_neg empty] at stays ⊢
    dsimp only at stays ⊢
    generalize decide (text.getLast? = some '/') = trailing at stays ⊢
    cases absolute : decide (text.head? = some '/') with
    | true =>
      have proper : ∀ part ∈ normalParts false text, IsPart part := by
        intro part member
        exact foldl_enter_proper (segments text) [] (not_mem_segment text)
          (fun part member => absurd member not_mem_nil) part (mem_reverse.mp member)
      rw [Bool.not_true]
      by_cases bare : joined (normalParts false text) = []
      · rw [if_pos bare, if_pos rfl]
        decide
      · rw [if_neg bare, if_pos rfl]
        have some' : normalParts false text ≠ [] := by
          intro none'
          exact bare (by rw [none']; rfl)
        intro part member
        rw [← nil_append ('/' :: _), segments_append] at member
        obtain first | later := mem_append.mp member
        · rw [mem_singleton.mp first]
          decide
        · exact segments_trailing proper some' trailing part later
    | false =>
      rw [absolute, Bool.not_false] at stays
      rw [Bool.not_false]
      by_cases bare : joined (normalParts true text) = []
      · rw [if_pos bare, if_neg Bool.false_ne_true]
        cases trailing <;> decide
      · rw [if_neg bare, if_neg Bool.false_ne_true] at stays ⊢
        have stays' : leadsOut (joined (normalParts true text)) = false := by
          refine Bool.eq_false_iff.mpr fun out => ?_
          cases trailing with
          | false => exact absurd (stays.symm.trans out) (by decide)
          | true => exact absurd (stays.symm.trans (leadsOut_append _ [] out)) (by decide)
        have some' : normalParts true text ≠ [] := by
          intro none'
          exact bare (by rw [none']; rfl)
        exact segments_trailing (upward_stays (normalParts_upward true text) stays') some' trailing

end Text
