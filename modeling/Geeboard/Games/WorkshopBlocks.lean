/-
This file is about the blocks of a description: that they keep its words and link
nowhere but to the web.

The limit cuts the blocks off and changes none of them, so a description with few blocks
is read as if there were none. Its words are kept exactly when no code element with
words stands in a list that has words already, and when its elements, which are looked
for in a copy in small letters, show what they show. The copy is as long as the
description but for one capital letter, whose small form is two characters.
-/

import Geeboard.Games.WorkshopWords

namespace Geeboard.Games.Workshop

open List Option
open Text (CodeUnit Units)

/-! ### The limit -/

/-- A state with no more blocks than the limit. -/
def State.cap (most : Nat) (state : State) : State :=
  { state with blocks := state.blocks.take most }

section Limit

variable {most : Nat}

theorem push_cap (block : Block) (state : State) :
    (state.cap most).push (some most) block = (state.push none block).cap most := by
  rw [push_none, State.push]
  have room : (state.cap most).hasRoom (some most) = decide (state.blocks.length < most) := by
    show decide ((state.blocks.take most).length < most) = _
    rw [length_take]
    exact decide_eq_decide.mpr (by omega)
  by_cases fits : state.blocks.length < most
  · have all : state.blocks.take most = state.blocks := take_of_length_le (by omega)
    have more : (state.blocks ++ [block]).take most = state.blocks ++ [block] :=
      take_of_length_le (by rw [length_append, length_singleton]; omega)
    rw [if_pos (by rw [room]; exact decide_eq_true fits)]
    unfold State.cap
    dsimp only
    rw [all, more]
  · have same : (state.blocks ++ [block]).take most = state.blocks.take most :=
      take_append_of_le_length (by omega)
    rw [if_neg (by rw [room, decide_eq_true_eq]; exact fits)]
    unfold State.cap
    dsimp only
    rw [same]

theorem flush_cap (state : State) :
    (state.cap most).flush (some most) = (state.flush none).cap most := by
  obtain ⟨blocks, spans, bold, italic, underline, strike, href, heading, quote, list, bareUrl⟩ :=
    state
  unfold State.flush
  dsimp only [State.cap]
  split
  · rfl
  · cases list with
    | none => exact push_cap _ ⟨blocks, [], bold, italic, underline, strike, href, heading, quote,
        none, bareUrl⟩
    | some open_ => rfl

theorem addText_cap (text : Signs) (state : State) :
    (state.cap most).addText text = (state.addText text).cap most := by
  unfold State.addText
  split
  · rfl
  · rfl

theorem text_cap (raw : Signs) (state : State) :
    (state.cap most).text (some most) raw = (state.text none raw).cap most := by
  have more (parts : List Signs) (state : State) :
      parts.foldl (fun state part => (state.flush (some most)).addText part) (state.cap most) =
        (parts.foldl (fun state part => (state.flush none).addText part) state).cap most := by
    induction parts generalizing state with
    | nil => rfl
    | cons part parts inductionHypothesis =>
      rw [foldl_cons, foldl_cons, flush_cap, addText_cap, inductionHypothesis]
  unfold State.text
  by_cases inside : (state.list.isSome || state.heading.isSome) = true
  · rw [if_pos inside]
    exact (if_pos inside).trans (addText_cap _ state)
  · rw [if_neg inside]
    refine (if_neg inside).trans ?_
    cases partsFrom 0 raw with
    | nil => rfl
    | cons first parts =>
      dsimp only
      rw [addText_cap, more]

theorem url_cap (parseUrl : Units → Option Url) (tag : Tag) (state : State) :
    (state.cap most).url parseUrl tag = (state.url parseUrl tag).cap most := by
  unfold State.url
  dsimp only [State.cap]
  split
  · split
    · rfl
    · split <;> rfl
  · split <;> rfl

theorem pushList_cap (state : State) :
    (state.cap most).pushList (some most) = (state.pushList none).cap most := by
  unfold State.pushList
  dsimp only [State.cap]
  split
  · rfl
  · split
    · rfl
    · exact push_cap _ state

theorem tag_cap (parseUrl : Units → Option Url) (tag : Tag) (state : State) :
    (state.cap most).tag (some most) parseUrl tag = (state.tag none parseUrl tag).cap most := by
  have flushed := @flush_cap most state
  unfold State.tag
  cases tag.mark with
  | bold => rfl
  | italic => rfl
  | underline => rfl
  | strike => rfl
  | url => exact url_cap parseUrl tag state
  | heading level =>
    dsimp only
    rw [flushed]
    rfl
  | quote =>
    dsimp only
    rw [flushed]
    rfl
  | list ordered =>
    dsimp only
    rw [flushed, pushList_cap]
    split <;> rfl
  | item =>
    dsimp only
    rw [flushed]
    rfl
  | rule =>
    dsimp only
    rw [flushed]
    exact push_cap _ _
  | raw element => rfl
  | other => rfl

theorem element_cap (element : Raw) (body : Signs) (state : State) :
    (state.cap most).element (some most) element body =
      (state.element none element body).cap most := by
  cases element with
  | code =>
    unfold State.element
    dsimp only
    rw [flush_cap]
    split
    · rfl
    · exact push_cap _ _
  | noparse => exact text_cap body state
  | img => rfl
  | previewyoutube => rfl

end Limit

/-! ### Blocks that stay -/

theorem blocks_flush (state : State) : state.blocks <+: (state.flush none).blocks := by
  unfold State.flush
  dsimp only
  split
  · exact prefix_rfl
  · split
    · exact prefix_rfl
    · exact prefix_append _ _

theorem blocks_addText (text : Signs) (state : State) :
    (state.addText text).blocks = state.blocks := by
  unfold State.addText
  split <;> rfl

theorem blocks_text (raw : Signs) (state : State) :
    state.blocks <+: (state.text none raw).blocks := by
  have more (parts : List Signs) (state : State) : state.blocks <+:
      (parts.foldl (fun state part => (state.flush none).addText part) state).blocks := by
    induction parts generalizing state with
    | nil => exact prefix_rfl
    | cons part parts inductionHypothesis =>
      refine (blocks_flush state).trans ?_
      rw [← blocks_addText part]
      exact inductionHypothesis _
  unfold State.text
  split
  · exact blocks_addText _ state ▸ prefix_rfl
  · split
    · exact prefix_rfl
    · next first parts _ =>
      rw [← blocks_addText first state]
      exact more parts _

theorem blocks_url (parseUrl : Units → Option Url) (tag : Tag) (state : State) :
    (state.url parseUrl tag).blocks = state.blocks := by
  unfold State.url
  split
  · split
    · rfl
    · dsimp only
      split <;> rfl
  · split <;> rfl

theorem blocks_pushList (state : State) : state.blocks <+: (state.pushList none).blocks := by
  unfold State.pushList
  split
  · exact prefix_rfl
  · dsimp only
    split
    · exact prefix_rfl
    · exact prefix_append _ _

theorem blocks_tag (parseUrl : Units → Option Url) (tag : Tag) (state : State) :
    state.blocks <+: (state.tag none parseUrl tag).blocks := by
  have flushed := blocks_flush state
  unfold State.tag
  cases tag.mark with
  | bold => exact prefix_rfl
  | italic => exact prefix_rfl
  | underline => exact prefix_rfl
  | strike => exact prefix_rfl
  | url => exact blocks_url parseUrl tag state ▸ prefix_rfl
  | heading level => exact flushed
  | quote => exact flushed
  | list ordered =>
    dsimp only
    split
    · exact flushed.trans (blocks_pushList _)
    · exact flushed
  | item => exact flushed
  | rule => exact flushed.trans (prefix_append _ _)
  | raw element => exact prefix_rfl
  | other => exact prefix_rfl

/-- Whatever is read, the blocks there are stay. -/
theorem blocks_read (parseUrl : Units → Option Url) (state : State) (piece : Piece) :
    state.blocks <+: (state.read none parseUrl piece).blocks := by
  cases piece with
  | words text => exact blocks_text text state
  | tag tag => exact blocks_tag parseUrl tag state
  | element kind body =>
    cases kind with
    | code =>
      show state.blocks <+: (state.element none .code body).blocks
      unfold State.element
      dsimp only
      split
      · exact blocks_flush state
      · exact (blocks_flush state).trans (prefix_append _ _)
    | noparse => exact blocks_text body state
    | img => exact prefix_rfl
    | previewyoutube => exact prefix_rfl

theorem blocks_foldl (parseUrl : Units → Option Url) (pieces : List Piece) (state : State) :
    state.blocks <+: ((pieces.foldl (State.read none parseUrl) state).finish none) := by
  induction pieces generalizing state with
  | nil => exact (blocks_flush state).trans (blocks_pushList _)
  | cons piece pieces inductionHypothesis =>
    exact (blocks_read parseUrl state piece).trans (inductionHypothesis _)

theorem finish_cap (most : Nat) (state : State) :
    (state.cap most).finish (some most) = (state.finish none).take most := by
  unfold State.finish
  rw [flush_cap, pushList_cap]
  rfl

/-- A limit cuts the blocks off that are past it. -/
theorem readFrom_cap (most : Nat) (lower : Units → Units) (parseUrl : Units → Option Url)
    (source : Signs) (turns at_ : Nat) (state : State) :
    (readFrom (some most) lower parseUrl source turns at_ (state.cap most)).finish (some most) =
      ((readFrom none lower parseUrl source turns at_ state).finish none).take most := by
  induction turns generalizing at_ state with
  | zero => exact finish_cap most state
  | succ turns inductionHypothesis =>
    by_cases inside : at_ < source.length
    · by_cases room : (state.cap most).hasRoom (some most) = true
      · unfold readFrom
        have always : state.hasRoom none = true := rfl
        rw [room, always, decide_eq_true inside, Bool.and_self, if_pos rfl, if_pos rfl]
        cases nextTag (source.drop at_) with
        | none =>
          dsimp only
          rw [text_cap, finish_cap]
        | some found =>
          obtain ⟨before, tag, rest⟩ := found
          dsimp only
          rw [text_cap]
          cases tag.opens with
          | none =>
            dsimp only
            rw [tag_cap, inductionHypothesis]
          | some element =>
            dsimp only
            rw [element_cap, inductionHypothesis]
      · have full : most ≤ state.blocks.length := by
          have few : ¬ (state.blocks.take most).length < most := fun few =>
            room (decide_eq_true few)
          rw [length_take] at few
          omega
        have stops : readFrom (some most) lower parseUrl source (turns + 1) at_ (state.cap most) =
            state.cap most := by
          rw [readFrom, if_neg]
          rw [Bool.and_eq_true]
          exact fun both => room both.2
        have grown := readFrom_none lower parseUrl source (turns + 1) at_ state
        rw [stops, finish_cap, grown]
        have ends (blocks : List Block) (stay : state.blocks <+: blocks) :
            blocks.take most = state.blocks.take most := by
          obtain ⟨more, rfl⟩ := stay
          exact take_append_of_le_length full
        rw [ends (state.finish none) ((blocks_flush state).trans (blocks_pushList _)),
          ends _ (blocks_foldl _ _ state)]
    · have stops (limit : Option Nat) (state : State) :
          readFrom limit lower parseUrl source (turns + 1) at_ state = state := by
        rw [readFrom, if_neg]
        rw [decide_eq_false inside]
        exact Bool.false_ne_true
      rw [stops, stops, finish_cap]

/-- A description with few blocks is read as without a limit. -/
theorem blocksOf_some {most : Nat} (lower : Units → Units) (parseUrl : Units → Option Url)
    (source : Signs) (few : (blocksOf none lower parseUrl source).length ≤ most) :
    blocksOf (some most) lower parseUrl source = blocksOf none lower parseUrl source := by
  have cut := readFrom_cap most lower parseUrl source source.length 0 {}
  have start : State.cap most {} = {} := by
    unfold State.cap
    rw [take_nil]
  rw [start] at cut
  exact cut.trans (take_of_length_le few)

/-! ### Links -/

/-- An absolute address of the web, as it was read from some text. -/
def IsWeb (parseUrl : Units → Option Url) (href : Units) : Prop :=
  ∃ text url, parseUrl text = some url ∧ isWeb url = true ∧ url.href = href

/-- The spans link to nothing but the web. -/
def Linked (parseUrl : Units → Option Url) (spans : List Span) : Prop :=
  ∀ span ∈ spans, ∀ href, span.href = some href → IsWeb parseUrl href

def Block.spans : Block → List Span
  | .heading _ spans => spans
  | .paragraph spans => spans
  | .quote spans => spans
  | .list _ items => items.flatten
  | .code _ => []
  | .rule => []

section Links

variable {parseUrl : Units → Option Url}

theorem safeHref_isWeb {raw href : Units} (safe : safeHref parseUrl raw = some href) :
    IsWeb parseUrl href := by
  unfold safeHref at safe
  split at safe
  · exact absurd safe (some_ne_none href).symm
  · obtain ⟨url, read, rfl⟩ := map_eq_some_iff.mp safe
    obtain ⟨parsed, web⟩ := filter_eq_some_iff.mp read
    exact ⟨_, url, parsed, web, rfl⟩

theorem linked_nil : Linked parseUrl [] := fun _ member => absurd member not_mem_nil

theorem linked_append {first second : List Span} :
    Linked parseUrl (first ++ second) ↔ Linked parseUrl first ∧ Linked parseUrl second :=
  forall_mem_append

/-- Trimming changes no link. -/
theorem Linked.saying {spans : List Span} (linked : Linked parseUrl spans) :
    Linked parseUrl (saying spans) :=
  fun span member => linked span (mem_of_mem_filter member)

theorem Linked.trimFirst {spans : List Span} (linked : Linked parseUrl spans) :
    Linked parseUrl (trimFirst spans) := by
  cases spans with
  | nil => exact linked
  | cons span spans =>
    obtain ⟨first, rest⟩ := forall_mem_cons.mp linked
    exact forall_mem_cons.mpr ⟨first, rest⟩

theorem Linked.trimLast {spans : List Span} (linked : Linked parseUrl spans) :
    Linked parseUrl (trimLast spans) := by
  induction spans using trimLast.induct with
  | case1 => exact linked
  | case2 span =>
    obtain ⟨first, rest⟩ := forall_mem_cons.mp linked
    exact forall_mem_cons.mpr ⟨first, rest⟩
  | case3 span next rest inductionHypothesis =>
    obtain ⟨first, others⟩ := forall_mem_cons.mp linked
    exact forall_mem_cons.mpr ⟨first, inductionHypothesis others⟩

theorem Linked.trimmed {spans : List Span} (linked : Linked parseUrl spans) :
    Linked parseUrl (trimmed spans) :=
  linked.saying.trimFirst.trimLast.saying

theorem flatten_addToLast (done : List Span) (items : List (List Span)) :
    (addToLast done items).flatten = items.flatten ++ done := by
  induction items using addToLast.induct with
  | case1 => exact append_nil done
  | case2 item =>
    rw [addToLast, flatten_singleton, flatten_singleton]
  | case3 item next rest inductionHypothesis =>
    rw [addToLast, flatten_cons, inductionHypothesis, ← append_assoc,
      ← flatten_cons]

/-- What has been read links to nothing but the web. -/
structure State.Links (parseUrl : Units → Option Url) (state : State) : Prop where
  blocks : ∀ block ∈ state.blocks, Linked parseUrl block.spans
  list : ∀ list, state.list = some list → Linked parseUrl list.items.flatten
  spans : Linked parseUrl state.spans
  href : ∀ href, state.href = some href → IsWeb parseUrl href

namespace State.Links

variable {state : State}

theorem start : State.Links parseUrl {} :=
  ⟨fun _ member => absurd member not_mem_nil, fun _ none_ => absurd none_.symm
    (some_ne_none _), linked_nil, fun _ none_ => absurd none_.symm (some_ne_none _)⟩

theorem push (links : state.Links parseUrl) {block : Block}
    (linked : Linked parseUrl block.spans) : (state.push none block).Links parseUrl :=
  ⟨forall_mem_append.mpr ⟨links.blocks, forall_mem_singleton.mpr linked⟩, links.list,
    links.spans, links.href⟩

theorem flush (links : state.Links parseUrl) : (state.flush none).Links parseUrl := by
  have bare : State.Links parseUrl { state with spans := [] } :=
    ⟨links.blocks, links.list, linked_nil, links.href⟩
  unfold State.flush
  dsimp only
  split
  · exact bare
  · split
    · next list open_ =>
      refine ⟨links.blocks, ?_, linked_nil, links.href⟩
      intro other same
      obtain rfl := some.inj same
      rw [flatten_addToLast]
      exact linked_append.mpr ⟨links.list list open_, links.spans.trimmed⟩
    · refine bare.push ?_
      unfold State.blockOf
      split
      · exact links.spans.trimmed
      · split
        · exact links.spans.trimmed
        · exact links.spans.trimmed

theorem addText (links : state.Links parseUrl) (text : Signs) :
    (state.addText text).Links parseUrl := by
  unfold State.addText
  split
  · exact links
  · refine ⟨links.blocks, links.list, ?_, links.href⟩
    refine linked_append.mpr ⟨links.spans, forall_mem_singleton.mpr ?_⟩
    intro href same
    exact links.href href (filter_eq_some_iff.mp same).1

theorem text (links : state.Links parseUrl) (raw : Signs) :
    (state.text none raw).Links parseUrl := by
  have more (parts : List Signs) (state : State) (links : state.Links parseUrl) :
      (parts.foldl (fun state part => (state.flush none).addText part) state).Links parseUrl := by
    induction parts generalizing state with
    | nil => exact links
    | cons part parts inductionHypothesis =>
      exact inductionHypothesis _ (links.flush.addText part)
  unfold State.text
  split
  · exact links.addText _
  · split
    · exact links
    · next first parts _ => exact more parts _ (links.addText first)

theorem url (links : state.Links parseUrl) (tag : Tag) :
    (state.url parseUrl tag).Links parseUrl := by
  have gone (href : Units) (none_ : none = some href) : IsWeb parseUrl href :=
    absurd none_.symm (some_ne_none href)
  unfold State.url
  split
  · split
    · exact ⟨links.blocks, links.list, links.spans, gone⟩
    · dsimp only
      split
      · exact ⟨links.blocks, links.list, links.spans, gone⟩
      · next at_ _ href safe =>
        refine ⟨links.blocks, links.list, ?_, gone⟩
        refine linked_append.mpr ⟨fun span member => links.spans span (mem_of_mem_take member),
          ?_⟩
        intro span member other same
        obtain ⟨_, -, rfl⟩ := List.mem_map.mp member
        obtain rfl := some.inj same
        exact safeHref_isWeb (filter_eq_some_iff.mp safe).1
  · split
    · exact ⟨links.blocks, links.list, links.spans, fun _ safe => safeHref_isWeb safe⟩
    · exact ⟨links.blocks, links.list, links.spans, links.href⟩

theorem pushList (links : state.Links parseUrl) : (state.pushList none).Links parseUrl := by
  unfold State.pushList
  split
  · exact links
  · next list open_ =>
    dsimp only
    split
    · exact links
    · refine links.push ?_
      intro span member
      obtain ⟨item, kept, within⟩ := mem_flatten.mp member
      exact links.list list open_ span
        (mem_flatten.mpr ⟨item, mem_of_mem_filter kept, within⟩)

theorem tag (links : state.Links parseUrl) (tag : Tag) :
    (state.tag none parseUrl tag).Links parseUrl := by
  have flushed := links.flush
  unfold State.tag
  cases tag.mark with
  | bold => exact ⟨links.blocks, links.list, links.spans, links.href⟩
  | italic => exact ⟨links.blocks, links.list, links.spans, links.href⟩
  | underline => exact ⟨links.blocks, links.list, links.spans, links.href⟩
  | strike => exact ⟨links.blocks, links.list, links.spans, links.href⟩
  | url => exact links.url tag
  | heading level => exact ⟨flushed.blocks, flushed.list, flushed.spans, flushed.href⟩
  | quote => exact ⟨flushed.blocks, flushed.list, flushed.spans, flushed.href⟩
  | list ordered =>
    dsimp only
    split
    · have pushed := flushed.pushList
      exact ⟨pushed.blocks, fun _ none_ => absurd none_.symm (some_ne_none _), pushed.spans,
        pushed.href⟩
    · refine ⟨flushed.blocks, ?_, flushed.spans, flushed.href⟩
      intro list same
      cases open_ : (state.flush none).list with
      | none =>
        rw [open_] at same
        obtain rfl := some.inj same
        exact linked_nil
      | some other =>
        rw [open_] at same
        obtain rfl := some.inj same
        exact flushed.list other open_
  | item =>
    refine ⟨flushed.blocks, ?_, flushed.spans, flushed.href⟩
    intro list same
    obtain ⟨other, open_, rfl⟩ := map_eq_some_iff.mp same
    rw [flatten_append]
    exact linked_append.mpr ⟨flushed.list other open_, linked_nil⟩
  | rule => exact flushed.push linked_nil
  | raw element => exact links
  | other => exact links

theorem read (links : state.Links parseUrl) (piece : Piece) :
    (state.read none parseUrl piece).Links parseUrl := by
  cases piece with
  | words text => exact links.text text
  | tag tag => exact links.tag tag
  | element kind body =>
    cases kind with
    | code =>
      show (state.element none .code body).Links parseUrl
      unfold State.element
      dsimp only
      split
      · exact links.flush
      · exact links.flush.push linked_nil
    | noparse => exact links.text body
    | img => exact links
    | previewyoutube => exact links

end State.Links

/-- Blocks link to nothing but the web. -/
theorem blocksOf_linked (lower : Units → Units) (source : Signs) :
    ∀ block ∈ blocksOf none lower parseUrl source, Linked parseUrl block.spans := by
  have more (pieces : List Piece) (state : State) (links : state.Links parseUrl) :
      (pieces.foldl (State.read none parseUrl) state).Links parseUrl := by
    induction pieces generalizing state with
    | nil => exact links
    | cons piece pieces inductionHypothesis => exact inductionHypothesis _ (links.read piece)
  rw [blocksOf, readFrom_none]
  exact (more _ _ State.Links.start).flush.pushList.blocks

end Links

/-! ### What a description shows -/

/-- The pieces of a description as it is read, with its elements looked for in a copy in small
letters. -/
def readAs (lower : Units → Units) (source : Signs) : List Piece :=
  piecesFrom (lower (source.map Sign.unit)) source source.length 0

/-- As it is read a description shows what it shows, up to blanks. -/
def ShowsAll (lower : Units → Units) (source : Signs) : Prop :=
  solid ((readAs lower source).flatMap Piece.shown) = solid (visible source)

instance (lower : Units → Units) (source : Signs) : Decidable (ShowsAll lower source) :=
  inferInstanceAs (Decidable (_ = _))

/-! ### Copies in small letters -/

/-- The capital letter whose small form is two characters. -/
def DOTTED : CodeUnit := 0x130

/-- A small form of one character: that of a letter without accents, a k for the sign of a kelvin,
and else no character of ASCII. -/
def Small (unit small : CodeUnit) : Prop :=
  if unit.val < 128 then small = lowerUnit unit
  else if unit.val = 0x212A then small = Text.code 'k'
  else 128 ≤ small.val

/-- A text's small form is that of its characters, where none of them has two. -/
def Lowers (lower : Units → Units) : Prop :=
  ∀ text, DOTTED ∉ text → List.Forall₂ Small text (lower text)

/-- Small letters, one character for one but for the one that has two. -/
def smallLetters (text : Units) : Units :=
  text.flatMap fun unit =>
    if unit = DOTTED then [Text.code 'i', 0x307]
    else if unit.val = 0x212A then [Text.code 'k'] else [lowerUnit unit]

theorem smallLetters_lowers : Lowers smallLetters := by
  intro text plain
  induction text with
  | nil => exact .nil
  | cons unit text inductionHypothesis =>
    obtain ⟨other, rest⟩ := not_or.mp (mem_cons.not.mp plain)
    unfold smallLetters at *
    rw [flatMap_cons, if_neg (Ne.symm other)]
    unfold Small lowerUnit at *
    split
    · next kelvin => exact .cons (by rw [if_neg (by omega), if_pos kelvin]) (inductionHypothesis rest)
    · next notKelvin =>
      refine .cons ?_ (inductionHypothesis rest)
      split
      · rfl
      · rw [if_neg]
        · omega
        · rw [Bool.and_eq_true, decide_eq_true_eq, decide_eq_true_eq]
          omega

/-- Behind such a letter the end of an element is missed. -/
example : ¬ ShowsAll smallLetters
    (sourceOf (DOTTED :: Text.codes "[noparse]x[/noparse]".toList)) := by
  decide +kernel

/-! ### Words and links kept -/

/-- The words of the blocks are what the description shows, each character once and in its order,
and a link is one to the web. -/
structure Keeps (lower : Units → Units) (parseUrl : Units → Option Url) (input : Units) :
    Prop where
  words : solid (readBlocks (parseWorkshopDescription lower parseUrl input)) =
    solid (visible (sourceOf input))
  links : ∀ block ∈ parseWorkshopDescription lower parseUrl input, ∀ span ∈ block.spans,
    ∀ href, span.href = some href → IsWeb parseUrl href

/-- A description with few blocks keeps its words exactly when no code element with words stands
in a list that has words already, and the elements as they are read show what they show. -/
theorem keeps_iff (lower : Units → Units) (parseUrl : Units → Option Url) (input : Units)
    (short : input.length ≤ MAX_INPUT)
    (few : (blocksOf none lower parseUrl (sourceOf input)).length ≤ MAX_BLOCKS) :
    Keeps lower parseUrl input ↔
      orderly none (readAs lower (sourceOf input)) = true ∧ ShowsAll lower (sourceOf input) := by
  have whole : parseWorkshopDescription lower parseUrl input =
      blocksOf none lower parseUrl (sourceOf input) := by
    rw [parseWorkshopDescription, take_of_length_le short,
      blocksOf_some lower parseUrl (sourceOf input) few]
  have words : solid (readBlocks (parseWorkshopDescription lower parseUrl input)) =
      ((readAs lower (sourceOf input)).foldl (State.read none parseUrl) {}).words := by
    rw [whole, blocksOf, readFrom_none, readBlocks_finish]
    rfl
  have places : (solid (visible (sourceOf input))).Pairwise fun first second =>
      first.place < second.place :=
    ((placed_pairwise _).sublist (visible_sublist _)).sublist filter_sublist
  have inPlace : (solid ((readAs lower (sourceOf input)).flatMap Piece.shown)).Pairwise
      fun first second => first.place < second.place :=
    ((placed_pairwise _).sublist (shown_sublist _ _ _ 0)).sublist filter_sublist
  constructor
  · rintro ⟨kept, -⟩
    cases inOrder : orderly none (readAs lower (sourceOf input)) with
    | true =>
      refine ⟨rfl, ?_⟩
      have read := words_of_orderly parseUrl _ Reads.start inOrder
      rw [nil_append] at read
      rw [ShowsAll, ← read, ← words, kept]
    | false =>
      obtain ⟨early, moved, shown, read⟩ := moved_of_not_orderly parseUrl _ Reads.start inOrder
      rw [nil_append] at shown
      rw [← words, kept] at read
      have forth := pairwise_cons.mp (inPlace.sublist shown)
      have back := pairwise_cons.mp (places.sublist read)
      exact absurd (forth.1 moved (mem_singleton_self moved))
        (Nat.lt_asymm (back.1 early (mem_singleton_self early)))
  · rintro ⟨inOrder, showsAll⟩
    refine ⟨?_, ?_⟩
    · rw [words, words_of_orderly parseUrl _ Reads.start inOrder, nil_append, showsAll]
    · rw [whole]
      exact blocksOf_linked lower (sourceOf input)

/-- Addresses that begin as those of the web do. -/
def webOnly (text : Units) : Option Url :=
  if (Text.codes "https://".toList).isPrefixOf text then
    some ⟨Text.codes "https:".toList, text⟩
  else none

/-- A list and a code element behind it. -/
def listThenCode : Units := Text.codes "[list][*]one[/list][code]x[/code]".toList

theorem keeps_listThenCode : Keeps smallLetters webOnly listThenCode :=
  (keeps_iff smallLetters webOnly listThenCode (by decide) (by decide +kernel)).mpr
    ⟨by decide +kernel, by decide +kernel⟩

/-- A code element inside a list. -/
def codeInList : Units := Text.codes "[list]a[code]x[/code]b[/list]".toList

/-- A code element in a list is read before the words in front of it. -/
theorem codeInList_moved : ¬ ∀ (lower : Units → Units) (parseUrl : Units → Option Url)
    (input : Units), Lowers lower → input.length ≤ MAX_INPUT →
      (blocksOf none lower parseUrl (sourceOf input)).length ≤ MAX_BLOCKS →
        Keeps lower parseUrl input := by
  intro always
  have kept := always smallLetters webOnly codeInList smallLetters_lowers (by decide)
    (by decide +kernel)
  have moved : solid (readBlocks (parseWorkshopDescription smallLetters webOnly codeInList)) ≠
      solid (visible (sourceOf codeInList)) := by decide +kernel
  exact moved kept.words

end Geeboard.Games.Workshop
