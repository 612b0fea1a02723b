/-
This file takes the structure of an expression apart into pieces.

The structure of an expression is what the rules about it ask for: its groups, its
bars, and the quantifiers with what carries them. A tree of it and the pieces of the
tree, from left to right, say the same. Both the engine and the panel are readers that
find pieces from the front of a text on.
-/

import Geeboard.Games.RegexGrammar
import Geeboard.Systems.Results

namespace Geeboard.Games.SafeRegex

open Systems Text List

/-! ### Structure as pieces -/

/-- The structure of an expression: its tree without the atoms that nothing repeats. -/
def shape : Alternation → Alternation
  | .done => .done
  | .bar rest => .bar (shape rest)
  | .atom none rest => shape rest
  | .atom (some quant) rest => .atom (some quant) (shape rest)
  | .group quant body rest => .group quant (shape body) (shape rest)

inductive Piece where
  | bar
  | opening
  | closing (quant : Option Quantifier)
  | atom (quant : Quantifier)
  deriving DecidableEq

def atomPiece : Option Quantifier → List Piece
  | none => []
  | some quant => [.atom quant]

/-- The pieces of a tree, from left to right. -/
def pieces : Alternation → List Piece
  | .done => []
  | .bar rest => .bar :: pieces rest
  | .atom quant rest => atomPiece quant ++ pieces rest
  | .group quant body rest => .opening :: (pieces body ++ .closing quant :: pieces rest)

theorem pieces_shape (tree : Alternation) : pieces (shape tree) = pieces tree := by
  induction tree with
  | done => rfl
  | bar rest ih => simp only [shape, pieces, ih]
  | atom quant rest ih =>
    cases quant with
    | none => exact ih
    | some quant => simp only [shape, pieces, ih]
  | group quant body rest bodyIh ih => simp only [shape, pieces, bodyIh, ih]

/-- What ends the pieces of a branch: nothing, or the end of the group around it. -/
def EndsBranch (rest : List Piece) : Prop := ∀ piece ∈ rest.head?, ∃ quant, piece = .closing quant

theorem endsBranch_nil : EndsBranch [] := fun _ member => nomatch member

theorem endsBranch_closing (quant : Option Quantifier) (rest : List Piece) :
    EndsBranch (.closing quant :: rest) := by
  intro piece member
  exact ⟨quant, (Option.some.inj member).symm⟩

/-- A structure, which has no atoms that nothing repeats. -/
def Bare : Alternation → Prop
  | .done => True
  | .bar rest => Bare rest
  | .atom quant rest => quant ≠ none ∧ Bare rest
  | .group _ body rest => Bare body ∧ Bare rest

theorem bare_shape (tree : Alternation) : Bare (shape tree) := by
  induction tree with
  | done => exact trivial
  | bar rest ih => exact ih
  | atom quant rest ih =>
    cases quant with
    | none => exact ih
    | some quant => exact ⟨Option.some_ne_none quant, ih⟩
  | group quant body rest bodyIh ih => exact ⟨bodyIh, ih⟩

theorem pieces_cases (tree : Alternation) (bare : Bare tree) (rest : List Piece) :
    (tree = .done ∧ pieces tree ++ rest = rest) ∨
      ∃ piece more, pieces tree ++ rest = piece :: more ∧ ∀ quant, piece ≠ .closing quant := by
  cases tree with
  | done => exact Or.inl ⟨rfl, rfl⟩
  | bar tree => exact Or.inr ⟨.bar, _, rfl, fun _ same => Piece.noConfusion same⟩
  | atom quant tree =>
    cases quant with
    | none => exact absurd rfl bare.1
    | some quant => exact Or.inr ⟨.atom quant, _, rfl, fun _ same => Piece.noConfusion same⟩
  | group quant body tree => exact Or.inr ⟨.opening, _, rfl, fun _ same => Piece.noConfusion same⟩

/-- A tree that gives no piece in front of the end of a branch is empty. -/
theorem done_of_endsBranch (tree : Alternation) (bare : Bare tree) (left right : List Piece)
    (ends : EndsBranch left) (same : pieces tree ++ right = left) : tree = .done := by
  obtain ⟨done, _⟩ | ⟨piece, more, split, open_⟩ := pieces_cases tree bare right
  · exact done
  · rw [← same, split] at ends
    obtain ⟨quant, closing⟩ := ends piece rfl
    exact absurd closing (open_ quant)

/-- The pieces of a structure give the structure back, whatever ends it. -/
theorem pieces_inj (first second : Alternation) (firstBare : Bare first) (secondBare : Bare second)
    (left right : List Piece) (leftEnds : EndsBranch left) (rightEnds : EndsBranch right)
    (same : pieces first ++ left = pieces second ++ right) : first = second ∧ left = right := by
  induction first generalizing second left right with
  | done =>
    have empty := done_of_endsBranch second secondBare left right leftEnds same.symm
    rw [empty] at same ⊢
    exact ⟨rfl, same⟩
  | bar rest ih =>
    cases second with
    | done => exact absurd (done_of_endsBranch _ firstBare _ _ rightEnds same) nofun
    | bar other =>
      obtain ⟨equal, ends⟩ := ih other firstBare secondBare left right leftEnds rightEnds
        (cons.inj same).2
      exact ⟨congrArg _ equal, ends⟩
    | atom quant other =>
      cases quant with
      | none => exact absurd rfl secondBare.1
      | some quant => exact Piece.noConfusion (cons.inj same).1
    | group quant body other => exact Piece.noConfusion (cons.inj same).1
  | atom quant rest ih =>
    obtain none | quant := quant
    · exact absurd rfl firstBare.1
    cases second with
    | done => exact absurd (done_of_endsBranch _ firstBare _ _ rightEnds same) nofun
    | bar other => exact Piece.noConfusion (cons.inj same).1
    | atom otherQuant other =>
      obtain none | otherQuant := otherQuant
      · exact absurd rfl secondBare.1
      obtain ⟨piece, same⟩ := cons.inj same
      obtain ⟨equal, ends⟩ := ih other firstBare.2 secondBare.2 left right leftEnds rightEnds same
      rw [Piece.atom.inj piece, equal]
      exact ⟨rfl, ends⟩
    | group quant body other => exact Piece.noConfusion (cons.inj same).1
  | group quant body rest bodyIh ih =>
    cases second with
    | done => exact absurd (done_of_endsBranch _ firstBare _ _ rightEnds same) nofun
    | bar other => exact Piece.noConfusion (cons.inj same).1
    | atom otherQuant other =>
      obtain none | otherQuant := otherQuant
      · exact absurd rfl secondBare.1
      exact Piece.noConfusion (cons.inj same).1
    | group otherQuant otherBody other =>
      simp only [pieces, cons_append, append_assoc] at same
      have within := (cons.inj same).2
      obtain ⟨bodies, after⟩ := bodyIh otherBody firstBare.1 secondBare.1 _ _
        (endsBranch_closing _ _) (endsBranch_closing _ _) within
      obtain ⟨closing, after⟩ := cons.inj after
      obtain ⟨equal, ends⟩ := ih other firstBare.2 secondBare.2 left right leftEnds rightEnds after
      rw [Piece.closing.inj closing, bodies, equal]
      exact ⟨rfl, ends⟩

/-- Two trees have one structure when their pieces are the same. -/
theorem shape_eq_iff (first second : Alternation) :
    shape first = shape second ↔ pieces first = pieces second := by
  constructor
  · intro same
    rw [← pieces_shape first, ← pieces_shape second, same]
  · intro same
    rw [← pieces_shape first, ← pieces_shape second] at same
    refine (pieces_inj _ _ (bare_shape first) (bare_shape second) [] [] endsBranch_nil
      endsBranch_nil ?_).1
    rw [same]

/-! ### Readers -/

/-- What reads a text piece by piece: how a group starts from after its parenthesis, what may
repeat what came before, and an atom with what repeats it. -/
structure Reader where
  starts : List Char → List Char → Prop
  repeated : List Char → Option Quantifier → List Char → Prop
  atom : List Char → Option Quantifier → List Char → Prop

/-- The pieces a reader finds in a text. -/
inductive Walks (reader : Reader) : List Char → List Piece → Prop where
  | finished : Walks reader [] []
  | bar (rest : List Char) (more : List Piece) (walks : Walks reader rest more) :
      Walks reader ('|' :: rest) (.bar :: more)
  | opening (source inner : List Char) (more : List Piece) (starts : reader.starts source inner)
      (walks : Walks reader inner more) : Walks reader ('(' :: source) (.opening :: more)
  | closing (source rest : List Char) (quant : Option Quantifier) (more : List Piece)
      (repeated : reader.repeated source quant rest) (walks : Walks reader rest more) :
      Walks reader (')' :: source) (.closing quant :: more)
  | atom (source rest : List Char) (quant : Option Quantifier) (more : List Piece)
      (atom : reader.atom source quant rest) (walks : Walks reader rest more) :
      Walks reader source (atomPiece quant ++ more)

/-- The engine. -/
def engine (ctx : PatternContext) : Reader where
  starts source inner := GroupStart source inner ∨ LookBehind source inner
  repeated := Quantified
  atom source quant rest :=
    ∃ text, (Atom ctx source text ∧ Quantified text quant rest) ∨
      (Assertion source text ∧ quant = none ∧ text = rest)

/-- The panel. -/
def panel : Reader where
  starts source inner := groupStart source = .ok inner
  repeated source quant rest := parseQuantifier source = .ok (quant, rest)
  atom source quant rest :=
    (∀ char ∈ source.head?, char ≠ '|' ∧ char ≠ '(' ∧ char ≠ ')') ∧ source ≠ [] ∧
      ∃ text, parseAtomText source = .ok text ∧ parseQuantifier text = .ok (quant, rest)

theorem walks_of_reads (ctx : PatternContext) (source rest : List Char) (tree : Alternation)
    (reads : Reads ctx source tree rest) (more : List Piece)
    (walks : Walks (engine ctx) rest more) : Walks (engine ctx) source (pieces tree ++ more) := by
  induction reads generalizing more with
  | nothing rest => exact walks
  | bar source rest tree branch ih => exact .bar _ _ (ih more walks)
  | assertion source next rest tree asserts branch ih =>
    exact .atom source next none _ ⟨next, Or.inr ⟨asserts, rfl, rfl⟩⟩ (ih more walks)
  | atom source text next rest quant tree atom quantified branch ih =>
    rw [pieces, append_assoc]
    exact .atom source next quant _ ⟨text, Or.inl ⟨atom, quantified⟩⟩ (ih more walks)
  | group source inner after next rest quant body tree starts inside quantified branch bodyIh ih =>
    have closed :=
      @Walks.closing (engine ctx) after next quant _ quantified (ih more walks)
    have within := @Walks.opening (engine ctx) source inner _ (Or.inl starts)
      (bodyIh _ closed)
    simpa only [pieces, append_assoc, cons_append] using within
  | lookBehind source inner next rest body tree starts inside branch bodyIh ih =>
    have closed :=
      @Walks.closing (engine ctx) next next none _ (.once next) (ih more walks)
    have within := @Walks.opening (engine ctx) source inner _ (Or.inr starts)
      (bodyIh _ closed)
    simpa only [pieces, append_assoc, cons_append] using within

theorem walks_of_parseAlternation (steps : Nat) (source rest : List Char) (tree : Alternation)
    (read : parseAlternation steps source = .ok (tree, rest)) (more : List Piece)
    (walks : Walks panel rest more) : Walks panel source (pieces tree ++ more) := by
  induction steps generalizing source rest tree more with
  | zero =>
    obtain ⟨rfl, rfl⟩ := Prod.mk.inj (Except.ok.inj read)
    exact walks
  | succ steps ih =>
    unfold parseAlternation at read
    split at read
    · obtain ⟨rfl, rfl⟩ := Prod.mk.inj (Except.ok.inj read)
      exact walks
    · obtain ⟨rfl, rfl⟩ := Prod.mk.inj (Except.ok.inj read)
      exact walks
    · next source =>
      obtain ⟨⟨branch, left⟩, here, same⟩ := ok_of_bind read
      obtain ⟨rfl, rfl⟩ := Prod.mk.inj (Except.ok.inj same)
      exact .bar _ _ (ih source left branch here more walks)
    · next source =>
      obtain ⟨inner, starts, read⟩ := ok_of_bind read
      obtain ⟨⟨body, closed⟩, inside, read⟩ := ok_of_bind read
      dsimp only at read
      split at read
      · next after =>
        obtain ⟨⟨quant, next⟩, repeated, read⟩ := ok_of_bind read
        obtain ⟨⟨branch, left⟩, here, same⟩ := ok_of_bind read
        obtain ⟨rfl, rfl⟩ := Prod.mk.inj (Except.ok.inj same)
        have closing := @Walks.closing panel after next quant _ repeated
          (ih next left branch here more walks)
        have within := @Walks.opening panel source inner _ starts
          (ih inner _ body inside _ closing)
        simpa only [pieces, append_assoc, cons_append] using within
      · cases read
    · next empty closing bar opening =>
      obtain ⟨text, atom, read⟩ := ok_of_bind read
      obtain ⟨⟨quant, next⟩, repeated, read⟩ := ok_of_bind read
      obtain ⟨⟨branch, left⟩, here, same⟩ := ok_of_bind read
      obtain ⟨rfl, rfl⟩ := Prod.mk.inj (Except.ok.inj same)
      rw [pieces, append_assoc]
      refine .atom source next quant _ ⟨?_, empty, text, atom, repeated⟩
        (ih next left branch here more walks)
      intro char first
      obtain ⟨tail, rfl⟩ := head?_eq_some_iff.mp first
      exact ⟨fun same => bar tail (same ▸ rfl), fun same => opening tail (same ▸ rfl),
        fun same => closing tail (same ▸ rfl)⟩

theorem walks_of_parse (source : List Char) (tree : Alternation) (read : parse source = .ok tree) :
    Walks panel source (pieces tree) := by
  obtain ⟨⟨found, rest⟩, here, ended⟩ := ok_of_bind read
  dsimp only at ended
  split at ended
  · next finished =>
    obtain rfl := List.isEmpty_iff.mp finished
    obtain rfl := Except.ok.inj ended
    rw [← append_nil (pieces found)]
    exact walks_of_parseAlternation _ source [] found here [] .finished
  · cases ended

end Geeboard.Games.SafeRegex
