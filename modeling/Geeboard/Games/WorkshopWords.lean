/-
This file is about what becomes of the words of a description.

What has been read stands in three places: in the blocks, in the items of the list that
is open, and in the spans that are not part of anything yet. Read in this order, up to
blanks, they are what has been shown, as long as no block is made while something is
held back; and nothing changes its place among the others afterwards. Only a code
element makes a block while a list is open, and it is moved past what the list holds.
-/

import Geeboard.Games.WorkshopReading

namespace Geeboard.Games.Workshop

open List Option
open Text (CodeUnit Units)

/-! ### Texts up to blanks -/

/-- The characters of a text that are no blanks. -/
def solid (text : Signs) : Signs := text.filter fun sign => !sign.blank

@[simp] theorem solid_nil : solid [] = [] := rfl

@[simp] theorem solid_append (first second : Signs) :
    solid (first ++ second) = solid first ++ solid second :=
  filter_append ..

theorem solid_cons (sign : Sign) (text : Signs) :
    solid (sign :: text) = solid [sign] ++ solid text :=
  solid_append [sign] text

theorem solid_eq_nil {text : Signs} (blanks : ∀ sign ∈ text, sign.blank = true) :
    solid text = [] := by
  refine filter_eq_nil_iff.mpr ?_
  intro sign member
  rw [blanks sign member]
  decide

/-- Blanks that a text begins with do not count. -/
theorem solid_dropWhile {kind : Sign → Bool} (blanks : ∀ sign, kind sign = true → sign.blank = true)
    (text : Signs) : solid (text.dropWhile kind) = solid text := by
  conv_rhs => rw [← @List.takeWhile_append_dropWhile _ kind text]
  have front : solid (text.takeWhile kind) = [] :=
    solid_eq_nil fun sign member => blanks sign (mem_takeWhile_imp member)
  rw [solid_append, front, nil_append]

theorem solid_reverse (text : Signs) : solid text.reverse = (solid text).reverse :=
  filter_reverse ..

/-- Nor do those that it ends with. -/
theorem solid_rdropWhile (text : Signs) : solid (text.rdropWhile Sign.blank) = solid text := by
  rw [List.rdropWhile, solid_reverse, solid_dropWhile (fun _ blank => blank), solid_reverse,
    reverse_reverse]

theorem is_blank {sign : Sign} {char : Char} (same : sign.is char = true)
    (blank : Text.isSpace (Text.charOf (Text.code char)) = true) : sign.blank = true := by
  rw [Sign.blank, beq_iff_eq.mp same]
  exact blank

theorem newline_blank (sign : Sign) (same : sign.is '\n' = true) : sign.blank = true :=
  is_blank same (by decide)

theorem solid_oneLineEnd (after : Bool) (text : Signs) :
    solid (oneLineEnd after text) = solid text := by
  induction text generalizing after with
  | nil => cases after <;> rfl
  | cons sign text inductionHypothesis =>
    rw [oneLineEnd]
    split
    · next newline =>
      have gone : solid (sign :: text) = solid text :=
        filter_cons_of_neg (by rw [newline_blank sign newline]; decide)
      split
      · rw [inductionHypothesis, gone]
      · rw [gone]
        exact (filter_cons_of_neg (by rw [newline_blank sign newline]; decide)).trans
          (inductionHypothesis true)
    · rw [solid_cons, inductionHypothesis, ← solid_cons]

/-- Blank lines are blanks. -/
theorem afterBlankLine_spec {text after : Signs} (found : afterBlankLine text = some after) :
    ∃ sign gap, text = sign :: (gap ++ after) ∧ solid (sign :: gap) = [] := by
  cases text with
  | nil => exact absurd found (some_ne_none after).symm
  | cons sign text =>
    rw [afterBlankLine] at found
    split at found
    · next newline =>
      split at found
      · next next_ more split_ =>
        split at found
        · next again =>
          obtain rfl := some.inj found
          refine ⟨sign, text.takeWhile (fun sign => sign.is ' ' || sign.is '\t') ++ next_ ::
            more.takeWhile (fun sign => sign.is '\n'), ?_, ?_⟩
          · rw [append_assoc, cons_append, takeWhile_append_dropWhile, ← split_,
              takeWhile_append_dropWhile]
          · refine solid_eq_nil ?_
            intro other member
            rcases mem_cons.mp member with rfl | member
            · exact newline_blank other newline
            · rcases mem_append.mp member with early | later
              · have spaces := mem_takeWhile_imp (p := fun sign : Sign => sign.is ' ' || sign.is '\t')
                  early
                rcases Bool.or_eq_true_iff.mp spaces with space | tab
                · exact is_blank space (by decide)
                · exact is_blank tab (by decide)
              · rcases mem_cons.mp later with rfl | last
                · exact newline_blank other again
                · exact newline_blank other
                    (mem_takeWhile_imp (p := fun sign : Sign => sign.is '\n') last)
        · exact absurd found (some_ne_none after).symm
      · exact absurd found (some_ne_none after).symm
    · exact absurd found (some_ne_none after).symm

theorem partsFrom_ne_nil (skip : Nat) (text : Signs) : partsFrom skip text ≠ [] := by
  induction text generalizing skip with
  | nil => cases skip <;> exact cons_ne_nil _ _
  | cons sign text inductionHypothesis =>
    cases skip with
    | succ skip => exact inductionHypothesis skip
    | zero =>
      rw [partsFrom]
      split
      · exact cons_ne_nil _ _
      · cases parts : partsFrom 0 text with
        | nil => exact absurd parts (inductionHypothesis 0)
        | cons first rest => exact cons_ne_nil _ _

/-- The parts between blank lines are the text. -/
theorem solid_partsFrom (skip : Nat) (text : Signs) :
    solid (partsFrom skip text).flatten = solid (text.drop skip) := by
  induction text generalizing skip with
  | nil => cases skip <;> rfl
  | cons sign text inductionHypothesis =>
    cases skip with
    | succ skip => exact inductionHypothesis skip
    | zero =>
      rw [partsFrom]
      split
      · next after found =>
        obtain ⟨first, gap, split_, blanks⟩ := afterBlankLine_spec found
        obtain ⟨rfl, same⟩ := cons.inj split_
        have behind : text.drop (text.length - after.length) = after := by
          rw [same, length_append, Nat.add_sub_cancel, drop_left]
        rw [flatten_cons, nil_append, inductionHypothesis, behind, drop_zero, same,
          ← cons_append, solid_append, blanks, nil_append]
      · have kept := inductionHypothesis 0
        cases parts : partsFrom 0 text with
        | nil => exact absurd parts (partsFrom_ne_nil 0 text)
        | cons first rest =>
          rw [parts, drop_zero] at kept
          rw [modifyHead_cons, flatten_cons, cons_append, ← flatten_cons,
            drop_zero]
          rw [solid_cons, kept, ← solid_cons]

/-! ### Spans and what is held -/

/-- The words of some spans. -/
def wordsOf (spans : List Span) : Signs := spans.flatMap Span.text

def Block.words : Block → Signs
  | .heading _ spans => wordsOf spans
  | .paragraph spans => wordsOf spans
  | .quote spans => wordsOf spans
  | .list _ items => items.flatMap wordsOf
  | .code text => text
  | .rule => []

/-- The words of some blocks, one after the other. -/
def readBlocks (blocks : List Block) : Signs := blocks.flatMap Block.words

theorem wordsOf_saying (spans : List Span) : wordsOf (saying spans) = wordsOf spans := by
  induction spans with
  | nil => rfl
  | cons span spans inductionHypothesis =>
    unfold saying wordsOf at *
    by_cases empty : span.text.isEmpty
    · rw [filter_cons_of_neg (by rw [empty]; decide), inductionHypothesis, flatMap_cons,
        List.isEmpty_iff.mp empty, nil_append]
    · rw [filter_cons_of_pos (by rw [Bool.not_eq_true _ |>.mp empty]; rfl),
        flatMap_cons, flatMap_cons, inductionHypothesis]

theorem solid_trimFirst (spans : List Span) :
    solid (wordsOf (trimFirst spans)) = solid (wordsOf spans) := by
  cases spans with
  | nil => rfl
  | cons span spans =>
    rw [trimFirst, wordsOf, flatMap_cons, solid_append, solid_dropWhile fun _ blank => blank,
      ← solid_append, ← flatMap_cons, wordsOf]

theorem solid_trimLast (spans : List Span) :
    solid (wordsOf (trimLast spans)) = solid (wordsOf spans) := by
  induction spans using trimLast.induct with
  | case1 => rfl
  | case2 span =>
    rw [trimLast, wordsOf, wordsOf, flatMap_singleton, flatMap_singleton,
      solid_rdropWhile]
  | case3 span next rest inductionHypothesis =>
    unfold wordsOf at *
    rw [trimLast, flatMap_cons, solid_append, inductionHypothesis, ← solid_append,
      ← flatMap_cons]

/-- Trimmed spans have the same words, up to blanks. -/
theorem solid_trimmed (spans : List Span) :
    solid (wordsOf (trimmed spans)) = solid (wordsOf spans) := by
  rw [trimmed, wordsOf_saying, solid_trimLast, solid_trimFirst, wordsOf_saying]

theorem words_addToLast (done : List Span) (items : List (List Span)) :
    (addToLast done items).flatMap wordsOf = items.flatMap wordsOf ++ wordsOf done := by
  induction items using addToLast.induct with
  | case1 => exact append_nil _
  | case2 item =>
    rw [addToLast, flatMap_singleton, flatMap_singleton]
    exact flatMap_append
  | case3 item next rest inductionHypothesis =>
    rw [addToLast, flatMap_cons, inductionHypothesis, ← append_assoc,
      ← flatMap_cons]

/-- The words of the blocks there are. -/
def State.said (state : State) : Signs := solid (readBlocks state.blocks)

/-- The words of the list that is open. -/
def State.listed (state : State) : Signs :=
  solid ((state.list.map fun list => list.items.flatMap wordsOf).getD [])

/-- The words that are in no block yet: those of the open list, and the collected ones. -/
def State.held (state : State) : Signs := state.listed ++ solid (wordsOf state.spans)

/-- All words read so far. -/
def State.words (state : State) : Signs := state.said ++ state.held

theorem push_none (block : Block) (state : State) :
    state.push none block = { state with blocks := state.blocks ++ [block] } := rfl

theorem said_push (block : Block) (state : State) :
    (state.push none block).said = state.said ++ solid block.words := by
  rw [push_none, State.said, State.said, readBlocks, readBlocks, flatMap_append,
    flatMap_singleton, solid_append]

@[simp] theorem held_push (block : Block) (state : State) :
    (state.push none block).held = state.held := rfl

@[simp] theorem list_push (block : Block) (state : State) :
    (state.push none block).list = state.list := rfl

theorem words_blockOf (state : State) (done : List Span) :
    (state.blockOf done).words = wordsOf done := by
  unfold State.blockOf
  split
  · rfl
  · split <;> rfl

/-! ### What each step does with the words -/

/-- Flushing leaves a list open or closed. -/
theorem list_flush (state : State) : (state.flush none).list.isSome = state.list.isSome := by
  unfold State.flush
  dsimp only
  split
  · rfl
  · cases list : state.list with
    | none => rfl
    | some open_ => rfl

/-- Flushed spans are in the open list. -/
theorem flush_list {state : State} (open_ : state.list.isSome = true) :
    (state.flush none).said = state.said ∧ (state.flush none).held = state.held ∧
      (state.flush none).spans = [] := by
  obtain ⟨list, holds⟩ := isSome_iff_exists.mp open_
  have kept := solid_trimmed state.spans
  unfold State.flush
  dsimp only
  split
  · next empty =>
    rw [List.isEmpty_iff.mp empty] at kept
    refine ⟨rfl, ?_, rfl⟩
    unfold State.held
    rw [← kept]
    rfl
  · rw [holds]
    refine ⟨rfl, ?_, rfl⟩
    unfold State.held State.listed
    dsimp only [map_some, getD_some]
    rw [holds, words_addToLast, solid_append, kept]
    exact append_nil _

/-- Flushed spans are a block when no list is open. -/
theorem flush_bare {state : State} (closed : state.list = none) :
    (state.flush none).said = state.said ++ state.held ∧ (state.flush none).held = [] ∧
      (state.flush none).list = none ∧ (state.flush none).spans = [] := by
  have kept := solid_trimmed state.spans
  have listed : state.listed = [] := by
    rw [State.listed, closed]
    rfl
  unfold State.flush
  dsimp only
  split
  · next empty =>
    rw [List.isEmpty_iff.mp empty] at kept
    refine ⟨?_, ?_, closed, rfl⟩
    · rw [State.held, listed, ← kept]
      exact (append_nil _).symm
    · exact congrArg (· ++ []) listed
  · rw [closed]
    refine ⟨?_, rfl, rfl, rfl⟩
    dsimp only
    rw [said_push, words_blockOf, kept, State.held, listed, nil_append]
    rfl

theorem words_flush (state : State) : (state.flush none).words = state.words := by
  unfold State.words
  cases list : state.list with
  | none =>
    obtain ⟨said, held, -⟩ := flush_bare list
    rw [said, held, append_nil]
  | some open_ =>
    obtain ⟨said, held, -⟩ := flush_list (isSome_iff_exists.mpr ⟨open_, list⟩)
    rw [said, held]

theorem spans_flush (state : State) : (state.flush none).spans = [] := by
  cases list : state.list with
  | none => exact (flush_bare list).2.2.2
  | some open_ => exact (flush_list (isSome_iff_exists.mpr ⟨open_, list⟩)).2.2

/-- Added words are the last ones. -/
theorem addText_spec (text : Signs) (state : State) :
    (state.addText text).said = state.said ∧
      (state.addText text).held = state.held ++ solid text ∧
        (state.addText text).list = state.list ∧ (state.addText text).heading = state.heading := by
  unfold State.addText
  split
  · next empty =>
    refine ⟨rfl, ?_, rfl, rfl⟩
    rw [List.isEmpty_iff.mp empty]
    exact (append_nil _).symm
  · refine ⟨rfl, ?_, rfl, rfl⟩
    unfold State.held State.listed wordsOf
    dsimp only
    rw [flatMap_append, solid_append, flatMap_singleton, append_assoc]

theorem words_addText (text : Signs) (state : State) :
    (state.addText text).words = state.words ++ solid text := by
  obtain ⟨said, held, -⟩ := addText_spec text state
  rw [State.words, said, held, ← append_assoc, State.words]

/-- A text's words are the last ones, and in an open list they are held. -/
theorem text_spec (raw : Signs) (state : State) :
    (state.text none raw).words = state.words ++ solid raw ∧
      (state.text none raw).list.isSome = state.list.isSome ∧
        (state.list.isSome = true → (state.text none raw).said = state.said ∧
          (state.text none raw).held = state.held ++ solid raw) := by
  unfold State.text
  split
  · obtain ⟨said, held, list, -⟩ := addText_spec (oneLineEnd false raw) state
    rw [words_addText, said, held, list, solid_oneLineEnd]
    exact ⟨rfl, rfl, fun _ => ⟨rfl, rfl⟩⟩
  · next bare =>
    have closed : state.list = none := by
      cases list : state.list with
      | none => rfl
      | some open_ => exact absurd (by rw [list]; rfl) bare
    have more (parts : List Signs) (state : State) (closed : state.list = none) :
        let done := parts.foldl (fun state part => (state.flush none).addText part) state
        done.words = state.words ++ solid parts.flatten ∧ done.list = none := by
      induction parts generalizing state with
      | nil => exact ⟨(append_nil _).symm, closed⟩
      | cons part parts inductionHypothesis =>
        have list := (addText_spec part (state.flush none)).2.2.1
        obtain ⟨words, stays⟩ := inductionHypothesis ((state.flush none).addText part)
          (list.trans (flush_bare closed).2.2.1)
        rw [foldl_cons, flatten_cons, solid_append]
        refine ⟨?_, stays⟩
        rw [words, words_addText, words_flush, append_assoc]
    split
    · next none_ => exact absurd none_ (partsFrom_ne_nil 0 raw)
    · next first parts split_ =>
      have list := (addText_spec first state).2.2.1
      obtain ⟨words, stays⟩ := more parts (state.addText first) (list.trans closed)
      have whole := solid_partsFrom 0 raw
      rw [split_, flatten_cons, solid_append, drop_zero] at whole
      rw [words, stays, closed, words_addText, append_assoc, whole]
      exact ⟨rfl, rfl, fun open_ => absurd open_ (by decide)⟩

theorem wordsOf_linkFrom (at_ : Nat) (href : Units) (spans : List Span) :
    wordsOf (linkFrom at_ href spans) = wordsOf spans := by
  conv_rhs => rw [← take_append_drop at_ spans]
  rw [linkFrom, wordsOf, wordsOf, flatMap_append, flatMap_append, flatMap_map]

/-- A link changes no words. -/
theorem url_spec (parseUrl : Units → Option Url) (tag : Tag) (state : State) :
    (state.url parseUrl tag).said = state.said ∧ (state.url parseUrl tag).held = state.held ∧
      (state.url parseUrl tag).list = state.list := by
  unfold State.url
  split
  · split
    · exact ⟨rfl, rfl, rfl⟩
    · dsimp only
      split
      · exact ⟨rfl, rfl, rfl⟩
      · refine ⟨rfl, ?_, rfl⟩
        rw [State.held, wordsOf_linkFrom]
        rfl
  · split
    · exact ⟨rfl, rfl, rfl⟩
    · exact ⟨rfl, rfl, rfl⟩

theorem words_saying (items : List (List Span)) :
    (items.filter fun item => !item.isEmpty).flatMap wordsOf = items.flatMap wordsOf := by
  induction items with
  | nil => rfl
  | cons item items inductionHypothesis =>
    by_cases empty : item.isEmpty
    · rw [filter_cons_of_neg (by rw [empty]; decide), inductionHypothesis, flatMap_cons,
        List.isEmpty_iff.mp empty]
      rfl
    · rw [filter_cons_of_pos (by rw [Bool.not_eq_true _ |>.mp empty]; rfl),
        flatMap_cons, flatMap_cons, inductionHypothesis]

/-- An open list becomes a block with its words. -/
theorem said_pushList (state : State) :
    (state.pushList none).said = state.said ++ state.listed := by
  unfold State.pushList
  cases list : state.list with
  | none =>
    rw [State.listed, list]
    exact (append_nil _).symm
  | some open_ =>
    have listed : state.listed = solid (open_.items.flatMap wordsOf) := by
      rw [State.listed, list]
      rfl
    have kept := words_saying open_.items
    dsimp only
    split
    · next empty =>
      rw [List.isEmpty_iff.mp empty] at kept
      rw [listed, ← kept]
      exact (append_nil _).symm
    · rw [said_push, listed, Block.words, kept]

theorem spans_pushList (state : State) : (state.pushList none).spans = state.spans := by
  unfold State.pushList
  split
  · rfl
  · dsimp only
    split <;> rfl

theorem held_item (state : State) : state.item.held = state.held := by
  unfold State.item State.held State.listed
  cases state.list with
  | none => rfl
  | some list =>
    dsimp only [map_some, getD_some]
    rw [flatMap_append, flatMap_singleton]
    exact congrArg (fun words => solid words ++ _) (append_nil _)

/-! ### Reading in order -/

/-- Whether a list is open behind a piece, and whether it has words by then. -/
def nextOpen (open_ : Option Bool) : Piece → Option Bool
  | .words text => open_.map fun begun => begun || !(solid text).isEmpty
  | .tag tag =>
    match tag.mark with
    | .list _ => if tag.closing then none else open_.or (some false)
    | _ => open_
  | .element kind body =>
    match kind with
    | .noparse => open_.map fun begun => begun || !(solid body).isEmpty
    | _ => open_

/-- A code element with words, in a list that has words already. -/
def late (open_ : Option Bool) : Piece → Bool
  | .element .code body => open_ == some true && !(solid body).isEmpty
  | _ => false

theorem late_iff {open_ : Option Bool} {piece : Piece} : late open_ piece = true ↔
    ∃ body, piece = .element .code body ∧ open_ = some true ∧ solid body ≠ [] := by
  constructor
  · intro isLate
    unfold late at isLate
    split at isLate
    · next body =>
      obtain ⟨begun, some_⟩ := Bool.and_eq_true_iff.mp isLate
      refine ⟨body, rfl, beq_iff_eq.mp begun, ?_⟩
      intro none_
      rw [none_] at some_
      exact absurd some_ (by decide)
    · exact absurd isLate Bool.false_ne_true
  · rintro ⟨body, rfl, rfl, some_⟩
    show (true && !(solid body).isEmpty) = true
    rw [Bool.true_and, Bool.not_eq_true', Bool.eq_false_iff]
    exact fun empty => some_ (List.isEmpty_iff.mp empty)

/-- No code element with words stands in a list that has words already. -/
def orderly : Option Bool → List Piece → Bool
  | _, [] => true
  | open_, piece :: pieces => !late open_ piece && orderly (nextOpen open_ piece) pieces

/-- All that was shown has been read in its order, and it is known what the open list holds. -/
structure Reads (open_ : Option Bool) (done : Signs) (state : State) : Prop where
  words : state.words = done
  lists : open_.isSome = state.list.isSome
  begun : ∀ begun, open_ = some begun → (begun = false ↔ state.held = [])

section Steps

variable {open_ : Option Bool} {done : Signs} {state : State}

theorem Reads.start : Reads none [] {} :=
  ⟨rfl, rfl, fun _ none_ => absurd none_.symm (some_ne_none _)⟩

theorem Reads.list_isSome (reads : Reads open_ done state) {begun : Bool}
    (same : open_ = some begun) : state.list.isSome = true := by
  rw [← reads.lists, same]
  rfl

theorem Reads.flush (reads : Reads open_ done state) : Reads open_ done (state.flush none) where
  words := (words_flush state).trans reads.words
  lists := reads.lists.trans (list_flush state).symm
  begun begun same := by
    rw [(flush_list (reads.list_isSome same)).2.1]
    exact reads.begun begun same

/-- What changes neither blocks, spans nor lists changes nothing that is read. -/
theorem Reads.of_eq (reads : Reads open_ done state) {other : State}
    (said : other.said = state.said) (held : other.held = state.held)
    (list : other.list.isSome = state.list.isSome) : Reads open_ done other where
  words := by rw [State.words, said, held, ← State.words, reads.words]
  lists := reads.lists.trans list.symm
  begun := by
    rw [held]
    exact reads.begun

/-- More words are read behind the others. -/
theorem Reads.text (reads : Reads open_ done state) (raw : Signs) :
    Reads (open_.map fun begun => begun || !(solid raw).isEmpty) (done ++ solid raw)
      (state.text none raw) := by
  obtain ⟨words, list, held⟩ := text_spec raw state
  refine ⟨by rw [words, reads.words], ?_, ?_⟩
  · rw [list, ← reads.lists, isSome_map]
  · intro begun same
    obtain ⟨before, was, rfl⟩ := map_eq_some_iff.mp same
    rw [(held (reads.list_isSome was)).2, append_eq_nil_iff, ← reads.begun before was,
      Bool.or_eq_false_iff, Bool.not_eq_false', List.isEmpty_iff]

theorem Reads.pushList (reads : Reads open_ done state) (bare : state.spans = []) :
    Reads none done { state.pushList none with list := none } := by
  have spans := spans_pushList state
  refine ⟨?_, rfl, fun _ none_ => absurd none_.symm (some_ne_none _)⟩
  have words := reads.words
  rw [State.words, State.held, bare, ← append_assoc, ← said_pushList] at words
  rw [← words, State.words, State.held]
  show (state.pushList none).said ++ ([] ++ solid (wordsOf (state.pushList none).spans)) = _
  rw [spans, bare]
  rfl

theorem Reads.openList (reads : Reads open_ done state) (bare : state.spans = [])
    (ordered : Bool) :
    Reads (open_.or (some false)) done { state with list := state.list.or (some ⟨ordered, []⟩) } := by
  cases list : state.list with
  | some other =>
    obtain ⟨begun, was⟩ := isSome_iff_exists.mp (by rw [reads.lists, list]; rfl)
    rw [was, some_or, some_or, ← was, ← list]
    exact reads
  | none =>
    have was : open_ = none := by
      cases open_ with
      | none => rfl
      | some begun => exact absurd (reads.list_isSome rfl) (by rw [list]; decide)
    have held : state.held = [] := by
      rw [State.held, State.listed, list, bare]
      rfl
    have words := reads.words
    rw [State.words, held, append_nil] at words
    rw [was, none_or, none_or]
    refine ⟨?_, rfl, ?_⟩
    · rw [← words, State.words, State.held, State.listed]
      dsimp only
      rw [bare]
      exact append_nil _
    · intro begun same
      obtain rfl := some.inj same
      refine iff_of_true rfl ?_
      rw [State.held, State.listed]
      dsimp only
      rw [bare]
      rfl

/-- A tag reads nothing. -/
theorem Reads.tag (reads : Reads open_ done state) (parseUrl : Units → Option Url) (tag : Tag) :
    Reads (nextOpen open_ (.tag tag)) done (state.tag none parseUrl tag) := by
  unfold State.tag nextOpen
  dsimp only
  cases tag.mark with
  | bold => exact reads.of_eq rfl rfl rfl
  | italic => exact reads.of_eq rfl rfl rfl
  | underline => exact reads.of_eq rfl rfl rfl
  | strike => exact reads.of_eq rfl rfl rfl
  | url =>
    obtain ⟨said, held, list⟩ := url_spec parseUrl tag state
    exact reads.of_eq said held (by rw [list])
  | heading level => exact reads.flush.of_eq rfl rfl rfl
  | quote => exact reads.flush.of_eq rfl rfl rfl
  | list ordered =>
    dsimp only
    split
    · exact reads.flush.pushList (spans_flush state)
    · exact reads.flush.openList (spans_flush state) ordered
  | item =>
    refine reads.flush.of_eq rfl (held_item _) ?_
    exact isSome_map ..
  | rule =>
    refine reads.flush.of_eq ?_ rfl rfl
    rw [said_push]
    exact append_nil _
  | raw element => exact reads
  | other => exact reads

theorem solid_kept (body : Signs) :
    solid ((body.dropWhile fun sign => sign.is '\n').rdropWhile Sign.blank) = solid body := by
  rw [solid_rdropWhile, solid_dropWhile newline_blank]

/-- A code element is put behind the blocks, and before what an open list holds. -/
theorem code_spec (body : Signs) (state : State) :
    (state.element none .code body).said = (state.flush none).said ++ solid body ∧
      (state.element none .code body).held = (state.flush none).held ∧
        (state.element none .code body).list = (state.flush none).list := by
  have kept := solid_kept body
  unfold State.element
  dsimp only
  split
  · next empty =>
    rw [List.isEmpty_iff.mp empty] at kept
    rw [← kept]
    exact ⟨(append_nil _).symm, rfl, rfl⟩
  · refine ⟨?_, rfl, rfl⟩
    rw [said_push, Block.words, kept]

/-- Nothing is held where a code element with words is not late. -/
theorem Reads.held_of_not_late (reads : Reads open_ done state) {body : Signs}
    (inTime : late open_ (.element .code body) = false) (some_ : solid body ≠ []) :
    (state.flush none).held = [] := by
  cases open_ with
  | none =>
    have closed : state.list = none :=
      not_isSome_iff_eq_none.mp (by rw [← reads.lists]; decide)
    exact (flush_bare closed).2.1
  | some begun =>
    rw [(flush_list (reads.list_isSome rfl)).2.1]
    refine (reads.begun begun rfl).mp ?_
    cases begun with
    | false => rfl
    | true => exact absurd (late_iff.mpr ⟨body, rfl, rfl, some_⟩) (by rw [inTime]; decide)

/-- An element that is not late is read behind the others. -/
theorem Reads.element (reads : Reads open_ done state) (kind : Raw) (body : Signs)
    (inTime : late open_ (.element kind body) = false) :
    Reads (nextOpen open_ (.element kind body)) (done ++ solid (Piece.shown (.element kind body)))
      (state.element none kind body) := by
  cases kind with
  | code =>
    obtain ⟨said, held, list⟩ := code_spec body state
    have flushed := reads.flush
    refine ⟨?_, ?_, ?_⟩
    · rw [State.words, said, held, ← flushed.words, State.words]
      show _ = _ ++ solid body
      by_cases none_ : solid body = []
      · rw [none_, append_nil, append_nil]
      · rw [reads.held_of_not_late inTime none_, append_nil, append_nil]
    · rw [list]
      exact flushed.lists
    · rw [held]
      exact flushed.begun
  | noparse => exact reads.text body
  | img =>
    show Reads open_ (done ++ []) state
    rw [append_nil]
    exact reads
  | previewyoutube =>
    show Reads open_ (done ++ []) state
    rw [append_nil]
    exact reads

/-- A piece that is not late is read behind the others. -/
theorem Reads.step (reads : Reads open_ done state) (parseUrl : Units → Option Url) (piece : Piece)
    (inTime : late open_ piece = false) :
    Reads (nextOpen open_ piece) (done ++ solid piece.shown)
      (state.read none parseUrl piece) := by
  cases piece with
  | words text => exact reads.text text
  | tag tag =>
    show Reads _ (done ++ []) _
    rw [append_nil]
    exact reads.tag parseUrl tag
  | element kind body => exact reads.element kind body inTime

/-- Whatever a state holds has been read in some order. -/
theorem exists_reads (state : State) : ∃ open_, Reads open_ state.words state := by
  refine ⟨state.list.map fun _ => !state.held.isEmpty, rfl, isSome_map .., ?_⟩
  intro begun same
  obtain ⟨-, -, rfl⟩ := map_eq_some_iff.mp same
  rw [Bool.not_eq_false', List.isEmpty_iff]

/-- Words that have been read keep their order among each other. -/
theorem words_sublist (parseUrl : Units → Option Url) (piece : Piece) (state : State) :
    state.words.Sublist (state.read none parseUrl piece).words := by
  obtain ⟨open_, reads⟩ := exists_reads state
  cases inTime : late open_ piece with
  | false =>
    rw [(reads.step parseUrl piece inTime).words]
    exact sublist_append_left _ _
  | true =>
    obtain ⟨body, rfl, -, -⟩ := late_iff.mp inTime
    obtain ⟨said, held, -⟩ := code_spec body state
    show state.words.Sublist ((state.element none .code body).said ++
      (state.element none .code body).held)
    rw [said, held, ← words_flush, State.words]
    exact (sublist_append_left _ _).append_right _

theorem foldl_sublist (parseUrl : Units → Option Url) (pieces : List Piece) (state : State) :
    state.words.Sublist (pieces.foldl (State.read none parseUrl) state).words := by
  induction pieces generalizing state with
  | nil => exact Sublist.refl _
  | cons piece pieces inductionHypothesis =>
    exact (words_sublist parseUrl piece state).trans (inductionHypothesis _)

/-- Pieces in order are read one behind the other. -/
theorem words_of_orderly (parseUrl : Units → Option Url) (pieces : List Piece)
    (reads : Reads open_ done state) (inOrder : orderly open_ pieces = true) :
    (pieces.foldl (State.read none parseUrl) state).words =
      done ++ solid (pieces.flatMap Piece.shown) := by
  induction pieces generalizing open_ done state with
  | nil => exact reads.words.trans (append_nil done).symm
  | cons piece pieces inductionHypothesis =>
    obtain ⟨inTime, rest⟩ := Bool.and_eq_true_iff.mp inOrder
    have next := reads.step parseUrl piece (Bool.not_eq_true' _ |>.mp inTime)
    rw [foldl_cons, inductionHypothesis next rest, flatMap_cons, solid_append,
      append_assoc]

/-- A late code element stands before words that were shown before it. -/
theorem Reads.late_moves (reads : Reads open_ done state) (parseUrl : Units → Option Url)
    {piece : Piece} (isLate : late open_ piece = true) :
    ∃ early moved, [early, moved].Sublist (done ++ solid piece.shown) ∧
      [moved, early].Sublist (state.read none parseUrl piece).words := by
  obtain ⟨body, rfl, begun, some_⟩ := late_iff.mp isLate
  have held : state.held ≠ [] := fun none_ =>
    absurd ((reads.begun true begun).mpr none_) (by decide)
  obtain ⟨said, holds, -⟩ := code_spec body state
  obtain ⟨early, earlyIn⟩ := exists_mem_of_ne_nil _ held
  obtain ⟨moved, movedIn⟩ := exists_mem_of_ne_nil _ some_
  refine ⟨early, moved, ?_, ?_⟩
  · rw [← reads.words]
    show ([early] ++ [moved]).Sublist _
    exact Sublist.append
      (singleton_sublist.mpr (mem_append_right _ earlyIn))
      (singleton_sublist.mpr movedIn)
  · show ([moved] ++ [early]).Sublist ((state.element none .code body).said ++
      (state.element none .code body).held)
    rw [said, holds, (flush_list (reads.list_isSome begun)).2.1]
    exact Sublist.append
      (singleton_sublist.mpr (mem_append_right _ movedIn))
      (singleton_sublist.mpr earlyIn)

/-- Of pieces that are not in order, some words are read the other way round. -/
theorem moved_of_not_orderly (parseUrl : Units → Option Url) (pieces : List Piece)
    (reads : Reads open_ done state) (disorder : orderly open_ pieces = false) :
    ∃ early moved, [early, moved].Sublist (done ++ solid (pieces.flatMap Piece.shown)) ∧
      [moved, early].Sublist (pieces.foldl (State.read none parseUrl) state).words := by
  induction pieces generalizing open_ done state with
  | nil =>
    rw [orderly] at disorder
    exact absurd disorder.symm Bool.false_ne_true
  | cons piece pieces inductionHypothesis =>
    rw [foldl_cons, flatMap_cons, solid_append, ← append_assoc]
    cases isLate : late open_ piece with
    | true =>
      obtain ⟨early, moved, shown, read⟩ := reads.late_moves parseUrl isLate
      exact ⟨early, moved, shown.trans (sublist_append_left _ _),
        read.trans (foldl_sublist parseUrl pieces _)⟩
    | false =>
      rw [orderly, isLate] at disorder
      exact inductionHypothesis (reads.step parseUrl piece isLate) disorder

end Steps

/-- What is read at the end stands in the blocks. -/
theorem readBlocks_finish (state : State) :
    solid (readBlocks (state.finish none)) = state.words := by
  have spans := spans_flush state
  show ((state.flush none).pushList none).said = state.words
  rw [said_pushList, ← words_flush, State.words, State.held, spans]
  exact congrArg _ (append_nil _).symm

end Geeboard.Games.Workshop
