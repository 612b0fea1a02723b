/-
This file is about what a description shows: the words outside its tags and outside the
elements that are left out, in their order.

A description is a row of pieces, which are words, tags and elements; what is read next
depends on the place alone. Without a limit the blocks are what the pieces make one
after the other, and with a limit they are the first of these.
-/

import Geeboard.Games.Workshop

namespace Geeboard.Games.Workshop

open List
open Text (CodeUnit Units)

/-! ### Pieces -/

/-- A piece of a description: words, a tag, or an element with its text. -/
inductive Piece where
  | words (text : Signs)
  | tag (tag : Tag)
  | element (element : Raw) (body : Signs)

/-- The pieces from a place on, by a copy of the description in small letters. -/
def piecesFrom (small : Units) (source : Signs) : Nat → Nat → List Piece
  | 0, _ => []
  | turns + 1, at_ =>
    if at_ < source.length then
      match nextTag (source.drop at_) with
      | none => [.words (source.drop at_)]
      | some (before, tag, rest) =>
        .words before :: match tag.opens with
          | none => .tag tag :: piecesFrom small source turns (source.length - rest.length)
          | some element =>
            let read := rawUntil small source (source.length - rest.length) element
            .element element read.1 :: piecesFrom small source turns read.2
    else []

/-- What is shown of a piece. -/
def Piece.shown : Piece → Signs
  | .words text => text
  | .tag _ => []
  | .element kind body =>
    match kind with
    | .code | .noparse => body
    | .img | .previewyoutube => []

/-- The pieces of a description whose elements end at their closing tags. -/
def pieces (source : Signs) : List Piece :=
  piecesFrom (source.map fun sign => lowerUnit sign.unit) source source.length 0

/-- What a description shows. -/
def visible (source : Signs) : Signs := (pieces source).flatMap Piece.shown

/-- What a piece does. -/
def State.read (limit : Option Nat) (parseUrl : Units → Option Url) (state : State) :
    Piece → State
  | .words text => state.text limit text
  | .tag tag => state.tag limit parseUrl tag
  | .element element body => state.element limit element body

/-- Without a limit a description is read piece by piece. -/
theorem readFrom_none (lower : Units → Units) (parseUrl : Units → Option Url) (source : Signs)
    (turns at_ : Nat) (state : State) :
    readFrom none lower parseUrl source turns at_ state =
      (piecesFrom (lower (source.map Sign.unit)) source turns at_).foldl
        (State.read none parseUrl) state := by
  induction turns generalizing at_ state with
  | zero => rfl
  | succ turns inductionHypothesis =>
    have room : state.hasRoom none = true := rfl
    unfold readFrom piecesFrom
    simp only [room, Bool.and_true, decide_eq_true_eq]
    split
    · cases nextTag (source.drop at_) with
      | none => rfl
      | some found =>
        obtain ⟨before, tag, rest⟩ := found
        dsimp only
        cases tag.opens with
        | none =>
          dsimp only
          rw [inductionHypothesis]
          rfl
        | some element =>
          dsimp only
          rw [inductionHypothesis]
          rfl
    · rfl

/-! ### The order of what is shown -/

theorem tagEnd_suffix {closing : Bool} {name : Units} {text rest : Signs} {tag : Tag}
    (found : tagEnd closing name text = some (tag, rest)) : rest <:+ text := by
  cases text with
  | nil => exact absurd found (Option.some_ne_none (tag, rest)).symm
  | cons sign text =>
    rw [tagEnd] at found
    split at found
    · obtain ⟨-, rfl⟩ := Prod.mk.inj (Option.some.inj found)
      exact suffix_cons sign text
    · split at found
      · dsimp only at found
        split at found
        · next last after split_ =>
          split at found
          · obtain ⟨-, rfl⟩ := Prod.mk.inj (Option.some.inj found)
            have within : last :: after <:+ text := split_ ▸ dropWhile_suffix _
            exact (suffix_cons last after).trans (within.trans (suffix_cons sign text))
          · exact absurd found (Option.some_ne_none (tag, rest)).symm
        · exact absurd found (Option.some_ne_none (tag, rest)).symm
      · exact absurd found (Option.some_ne_none (tag, rest)).symm

theorem tagInside_suffix {closing : Bool} {inside rest : Signs} {tag : Tag}
    (found : tagInside closing inside = some (tag, rest)) : rest <:+ inside := by
  rw [tagInside] at found
  split at found
  · exact absurd found (Option.some_ne_none (tag, rest)).symm
  · exact (tagEnd_suffix found).trans (dropWhile_suffix _)

/-- A tag takes something of the text it begins. -/
theorem tagAt_suffix {sign : Sign} {text rest : Signs} {tag : Tag}
    (found : tagAt (sign :: text) = some (tag, rest)) : rest <:+ text := by
  rw [tagAt] at found
  split at found
  · split at found
    · exact (tagInside_suffix found).trans (tail_suffix text)
    · exact tagInside_suffix found
  · exact absurd found (Option.some_ne_none (tag, rest)).symm

/-- What is before a tag and what is behind it are the text without the tag. -/
theorem nextTag_spec {text before rest : Signs} {tag : Tag}
    (found : nextTag text = some (before, tag, rest)) :
    ∃ mark, mark ≠ [] ∧ text = before ++ mark ++ rest := by
  induction text generalizing before with
  | nil => exact absurd found (Option.some_ne_none (before, tag, rest)).symm
  | cons sign text inductionHypothesis =>
    unfold nextTag at found
    split at found
    · next here =>
      obtain ⟨rfl, same⟩ := Prod.mk.inj (Option.some.inj found)
      obtain ⟨rfl, rfl⟩ := Prod.mk.inj same
      obtain ⟨mark, split⟩ := tagAt_suffix here
      exact ⟨sign :: mark, cons_ne_nil sign mark, by rw [← split]; rfl⟩
    · obtain ⟨⟨early, other⟩, later, same⟩ := Option.map_eq_some_iff.mp found
      obtain ⟨rfl, rfl⟩ := Prod.mk.inj same
      obtain ⟨mark, some_, split⟩ := inductionHypothesis later
      exact ⟨mark, some_, by rw [split]; rfl⟩

/-- What is behind a tag begins at the place it is counted to begin at. -/
theorem drop_behind {source before mark rest : Signs} {at_ : Nat}
    (split : source.drop at_ = before ++ mark ++ rest) :
    source.drop (source.length - rest.length) = rest := by
  have whole : source = (source.take at_ ++ before ++ mark) ++ rest := by
    rw [append_assoc, append_assoc, ← append_assoc before, ← split,
      take_append_drop]
  rw [whole, length_append, Nat.add_sub_cancel, drop_left]

theorem le_of_indexFrom {pattern text : Units} {at_ place : Nat}
    (found : indexFrom pattern at_ text = some place) : at_ ≤ place := by
  induction text generalizing at_ with
  | nil => exact absurd found (Option.some_ne_none place).symm
  | cons unit text inductionHypothesis =>
    unfold indexFrom at found
    split at found
    · exact le_of_eq (Option.some.inj found)
    · exact Nat.le_of_succ_le (inductionHypothesis found)

/-- The text of an element stands before what is read after it. -/
theorem rawUntil_sublist (small : Units) (source : Signs) (from_ : Nat) (element : Raw) :
    ((rawUntil small source from_ element).1 ++
      source.drop (rawUntil small source from_ element).2).Sublist (source.drop from_) := by
  unfold rawUntil
  split
  · rw [drop_length, append_nil]
  · next close found =>
    have after : from_ ≤ close := le_of_indexFrom found
    have whole : source.drop from_ = (source.take close).drop from_ ++ source.drop close := by
      conv_lhs => rw [← take_append_drop close source]
      by_cases inside : close ≤ source.length
      · rw [drop_append_of_le_length (by rw [length_take, min_eq_left inside]; exact after)]
      · have past := Nat.le_of_lt (Nat.not_le.mp inside)
        rw [drop_of_length_le past, append_nil, append_nil]
    rw [whole, Nat.add_assoc, ← drop_drop]
    exact (drop_sublist _ _).append_left _

/-- What is shown is a part of the description, in its order. -/
theorem shown_sublist (small : Units) (source : Signs) (turns at_ : Nat) :
    ((piecesFrom small source turns at_).flatMap Piece.shown).Sublist (source.drop at_) := by
  induction turns generalizing at_ with
  | zero => exact nil_sublist _
  | succ turns inductionHypothesis =>
    unfold piecesFrom
    split
    · split
      · rw [flatMap_singleton]
        exact Sublist.refl _
      · next before tag rest found =>
        obtain ⟨mark, -, split_⟩ := nextTag_spec found
        have behind := drop_behind split_
        rw [flatMap_cons, split_, append_assoc]
        refine Sublist.append_left ?_ before
        split
        · refine (inductionHypothesis _).trans ?_
          rw [behind]
          exact sublist_append_right mark rest
        · next element _ =>
          refine Sublist.trans ?_ (sublist_append_right mark rest)
          have read := rawUntil_sublist small source (source.length - rest.length) element
          rw [behind] at read
          refine Sublist.trans ?_ read
          rw [flatMap_cons]
          refine Sublist.append ?_ (inductionHypothesis _)
          cases element with
          | code => exact Sublist.refl _
          | noparse => exact Sublist.refl _
          | img => exact nil_sublist _
          | previewyoutube => exact nil_sublist _
    · exact nil_sublist _

/-- The characters of a text stand at their places one after the other. -/
theorem placed_pairwise (text : Units) :
    (placed text).Pairwise fun first second => first.place < second.place := by
  unfold placed
  rw [pairwise_map, pairwise_iff_getElem]
  intro first second firstIn secondIn before
  rw [getElem_zipIdx, getElem_zipIdx]
  exact Nat.add_lt_add_left before 0

theorem visible_sublist (source : Signs) : (visible source).Sublist source :=
  shown_sublist _ source source.length 0

end Geeboard.Games.Workshop
