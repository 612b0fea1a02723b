/-
This file is about which texts are cron texts, and what they stand for.

The grammar is stated by itself: a text is five fields with blanks between, a field
is a list of parts, and a part is a star, a number or a range, with a step or without.
The reader takes more than that, since it reads numbers as the language does and skips
what it does not look at, and a little less, since a step may be too large to be a
number of the language. Everywhere else it takes exactly the grammar, and each field
then holds what its parts stand for.
-/

import Geeboard.Scheduling.Cron
import Geeboard.Systems.Results
import Geeboard.Text.Numerals

namespace Geeboard.Scheduling

open List Option
open Text (Spaced wholeNumber)

/-! ### The grammar -/

/-- What a part of a field names before its step. -/
inductive Span
  | all
  | one (value : Nat)
  | between (first last : Nat)
  deriving DecidableEq, Repr

structure Part where
  span : Span
  step : Option Nat
  deriving DecidableEq, Repr

/-- A number as a cron text writes it: digits, in base ten. -/
def IsDecimal (text : List Char) (value : Nat) : Prop :=
  text ≠ [] ∧ (∀ char ∈ text, char.isDigit = true) ∧ Text.decimal text = value

/-- How a span is written. -/
inductive Span.Written : Span → List Char → Prop
  | all : Written .all ['*']
  | one {text : List Char} {value : Nat} (number : IsDecimal text value) : Written (.one value) text
  | between {from_ to_ : List Char} {first last : Nat} (begins : IsDecimal from_ first)
      (ends : IsDecimal to_ last) : Written (.between first last) (from_ ++ '-' :: to_)

/-- How a part is written. -/
inductive Part.Written : Part → List Char → Prop
  | plain {span : Span} {text : List Char} (written : span.Written text) : Written ⟨span, none⟩ text
  | stepped {span : Span} {text stepText : List Char} {step : Nat} (written : span.Written text)
      (number : IsDecimal stepText step) : Written ⟨span, some step⟩ (text ++ '/' :: stepText)

/-- Whether the numbers of a span are within a range, and in order. -/
def Span.Fits (range : Nat × Nat) : Span → Prop
  | .all => True
  | .one value => range.1 ≤ value ∧ value ≤ range.2
  | .between first last => range.1 ≤ first ∧ first ≤ last ∧ last ≤ range.2

/-- Whether the numbers of a part are within the range of its field, and its step is one. -/
def Part.Fits (range : Nat × Nat) (part : Part) : Prop :=
  part.span.Fits range ∧ ∀ step, part.step = some step → 1 ≤ step

/-- The first and the last number that a part may stand for. -/
def Part.bounds (range : Nat × Nat) (part : Part) : Nat × Nat :=
  match part.span with
  | .all => range
  | .one value => (value, if part.step.isSome then range.2 else value)
  | .between first last => (first, last)

/-- The numbers that a part stands for. -/
def Part.Denotes (range : Nat × Nat) (part : Part) (value : Nat) : Prop :=
  ∃ count, value = (part.bounds range).1 + count * part.step.getD 1 ∧
    value ≤ (part.bounds range).2

/-- How a field is written: its parts, one at least, with commas between. -/
def FieldWritten (parts : List Part) (field : List Char) : Prop :=
  ∃ texts, texts ≠ [] ∧ field = [','].intercalate texts ∧ List.Forall₂ Part.Written parts texts

/-- The ranges of the five fields. -/
def RANGES : List (Nat × Nat) := [(0, 59), (0, 23), (1, 31), (1, 12), (0, 6)]

/-- How a cron text is written: five fields, each with the parts it is made of. -/
def CronWritten (fields : List (List Part)) (expression : List Char) : Prop :=
  ∃ texts : List (List Char), texts.length = 5 ∧ Spaced texts (Text.trimmed expression) ∧
    List.Forall₂ FieldWritten fields texts

/-- A text of the grammar, with its parts: it is written so, and each number is in its range. -/
def Grammatical (fields : List (List Part)) (expression : List Char) : Prop :=
  CronWritten fields expression ∧
    List.Forall₂ (fun range parts => ∀ part ∈ parts, Part.Fits range part) RANGES fields

/-! ### What the reader takes -/

section Reading

variable (number : List Char → Option Int)

/-- The step that the reader sees behind a slash. What stands behind a second slash, and nothing
behind the first, are no step. -/
def stepRead (rest : List (List Char)) : Option Int :=
  if rest.headD [] = [] then some 1 else number (rest.headD [])

/-- The numbers that the reader sees in a span. What stands behind a second dash is skipped. -/
def boundsRead (range : Nat × Nat) (stepped : Bool) (spec : List Char) : Option (Int × Int) :=
  (number ((spec.splitOn '-').headD [])).bind fun first =>
    match spec.splitOn '-' with
    | _ :: last :: _ => (number last).map fun last => (first, last)
    | _ => some (first, if stepped then (range.2 : Int) else first)

theorem parsePart_eq (range : Nat × Nat) {text spec : List Char} {rest : List (List Char)}
    (pieces : text.splitOn '/' = spec :: rest) :
    parsePart number range text = (stepRead number rest).bind fun step =>
      if step < 1 then none
      else if spec = ['*'] then
        some (List.range' range.1 ((range.2 - range.1) / step.toNat + 1) step.toNat)
      else (boundsRead number range (rest.headD [] ≠ []) spec).bind fun bounds =>
        if bounds.1 < range.1 ∨ (range.2 : Int) < bounds.2 ∨ bounds.2 < bounds.1 then none
        else some (List.range' bounds.1.toNat
          ((bounds.2 - bounds.1).toNat / step.toNat + 1) step.toNat) := by
  have behind : ((spec :: rest).drop 1).headD [] = rest.headD [] := rfl
  have stepFirst (next : Int → Option (List Nat)) :
      (if rest.headD [] = [] then (some 1).bind next else (number (rest.headD [])).bind next) =
        (if rest.headD [] = [] then some 1 else number (rest.headD [])).bind next := by
    split <;> rfl
  unfold parsePart stepRead boundsRead
  simp only [pieces, behind, headD_cons, bind_eq_bind]
  rw [stepFirst]
  congr 1
  funext step
  by_cases low : step < 1
  · rw [if_pos low, if_pos low]
  rw [if_neg low, if_neg low]
  by_cases all : spec = ['*']
  · rw [if_pos all, if_pos all]
  rw [if_neg all, if_neg all, bind_assoc]
  congr 1
  funext first
  have single : (if rest.headD [] = [] then some first else some (range.2 : Int)) =
      some (if decide (rest.headD [] ≠ []) = true then (range.2 : Int) else first) := by
    by_cases stepped : rest.headD [] = []
    · simp only [stepped, if_true, ne_eq, not_true, decide_false, Bool.false_eq_true, if_false]
    · simp only [stepped, if_false, ne_eq, not_false_eq_true, decide_true, if_true]
  have bindIf (next : Int → Option (List Nat)) :
      (if rest.headD [] = [] then (some first).bind next else (some (range.2 : Int)).bind next) =
        (if rest.headD [] = [] then some first else some (range.2 : Int)).bind next := by
    split <;> rfl
  rcases spec.splitOn '-' with _ | ⟨_, _ | ⟨last, _⟩⟩
  · exact (bindIf _).trans (by rw [single]; rfl)
  · exact (bindIf _).trans (by rw [single]; rfl)
  · dsimp only
    cases number last with
    | none => rfl
    | some last => rfl

/-- What the reader takes as a step. -/
def StepTaken (rest : List (List Char)) : Prop :=
  ∀ text, rest.head? = some text → text ≠ [] → ∃ step, number text = some step ∧ 1 ≤ step

/-- What the reader takes as a span: a star, or numbers of the language within the range, of which
the second may be missing and anything behind it is skipped. -/
def SpanTaken (range : Nat × Nat) (spec : List Char) : Prop :=
  spec = ['*'] ∨ ∃ from_ rest first, spec.splitOn '-' = from_ :: rest ∧ number from_ = some first ∧
    (range.1 : Int) ≤ first ∧
    ((rest = [] ∧ first ≤ range.2) ∨
      ∃ to_ more last, rest = to_ :: more ∧ number to_ = some last ∧ first ≤ last ∧ last ≤ range.2)

/-- What the reader takes as a part. -/
def Taken (range : Nat × Nat) (text : List Char) : Prop :=
  ∃ spec rest, text.splitOn '/' = spec :: rest ∧ StepTaken number rest ∧
    SpanTaken number range spec

theorem stepTaken_iff (rest : List (List Char)) :
    StepTaken number rest ↔ ∃ step, stepRead number rest = some step ∧ 1 ≤ step := by
  unfold StepTaken stepRead
  cases rest with
  | nil => exact iff_of_true (fun _ none_ => nomatch none_) ⟨1, rfl, le_refl _⟩
  | cons text rest =>
    rw [headD_cons]
    by_cases empty : text = []
    · rw [if_pos empty]
      refine iff_of_true ?_ ⟨1, rfl, le_refl _⟩
      rintro other here some_
      exact absurd (some.inj here ▸ empty) some_
    · rw [if_neg empty]
      constructor
      · exact fun taken => taken text rfl empty
      · rintro read other here _
        obtain rfl := some.inj here
        exact read

theorem spanTaken_iff (range : Nat × Nat) (stepped : Bool) (spec : List Char) :
    SpanTaken number range spec ↔ spec = ['*'] ∨ ∃ bounds, boundsRead number range stepped spec =
      some bounds ∧ ¬(bounds.1 < range.1 ∨ (range.2 : Int) < bounds.2 ∨ bounds.2 < bounds.1) := by
  refine or_congr_right ?_
  constructor
  · rintro ⟨from_, rest, first, pieces, begins, low, single | both⟩
    · obtain ⟨rfl, high⟩ := single
      refine ⟨(first, if stepped then (range.2 : Int) else first), ?_, ?_⟩
      · simp only [boundsRead, pieces, headD_cons, begins, bind_some]
      · split <;> simp only <;> omega
    · obtain ⟨to_, more, last, rfl, ends, order, high⟩ := both
      refine ⟨(first, last), ?_, by simp only; omega⟩
      simp only [boundsRead, pieces, headD_cons, begins, bind_some, ends,
        map_some]
  · rintro ⟨⟨first, last⟩, read, within⟩
    obtain ⟨begin_, begins, ends⟩ := bind_eq_some_iff.mp read
    cases pieces : spec.splitOn '-' with
    | nil => exact absurd pieces (splitOn_ne_nil _ _)
    | cons from_ rest =>
      rw [pieces, headD_cons] at begins
      rw [pieces] at ends
      cases rest with
      | nil =>
        obtain ⟨rfl, -⟩ := Prod.mk.inj (some.inj ends)
        have lastIs := (Prod.mk.inj (some.inj ends)).2
        refine ⟨from_, [], begin_, rfl, begins, by simp only at within; omega, .inl ⟨rfl, ?_⟩⟩
        split at lastIs <;> simp only at within <;> omega
      | cons to_ more =>
        obtain ⟨last', lastRead, same⟩ := map_eq_some_iff.mp ends
        obtain ⟨rfl, rfl⟩ := Prod.mk.inj same
        simp only at within
        exact ⟨from_, to_ :: more, begin_, rfl, begins, by omega,
          .inr ⟨to_, more, last', rfl, lastRead, by omega, by omega⟩⟩

/-- The reader takes exactly the parts it can take. -/
theorem taken_iff (range : Nat × Nat) (text : List Char) :
    Taken number range text ↔ ∃ values, parsePart number range text = some values := by
  obtain ⟨spec, rest, pieces⟩ := exists_cons_of_ne_nil (splitOn_ne_nil '/' text)
  have taken : Taken number range text ↔ StepTaken number rest ∧ SpanTaken number range spec := by
    constructor
    · rintro ⟨_, _, same, both⟩
      obtain ⟨rfl, rfl⟩ := cons.inj (pieces.symm.trans same)
      exact both
    · exact fun both => ⟨spec, rest, pieces, both⟩
  rw [taken, stepTaken_iff, spanTaken_iff number range (rest.headD [] ≠ []),
    parsePart_eq number range pieces]
  constructor
  · rintro ⟨⟨step, read, least⟩, all | ⟨bounds, spanRead, within⟩⟩
    · rw [read, bind_some, if_neg (by omega), if_pos all]
      exact ⟨_, rfl⟩
    · rw [read, bind_some, if_neg (by omega)]
      split
      · exact ⟨_, rfl⟩
      · rw [spanRead, bind_some, if_neg within]
        exact ⟨_, rfl⟩
  · rintro ⟨values, parsed⟩
    obtain ⟨step, read, parsed⟩ := bind_eq_some_iff.mp parsed
    split at parsed
    · cases parsed
    · next least =>
      refine ⟨⟨step, read, by omega⟩, ?_⟩
      split at parsed
      · next all => exact .inl all
      · obtain ⟨bounds, spanRead, parsed⟩ := bind_eq_some_iff.mp parsed
        split at parsed
        · cases parsed
        · next within => exact .inr ⟨bounds, spanRead, within⟩

end Reading

/-! ### What is written is taken -/

section Written

theorem IsDecimal.not_mem {text : List Char} {value : Nat} (number : IsDecimal text value)
    {char : Char} (other : char.isDigit = false) : char ∉ text := by
  intro member
  rw [number.2.1 char member] at other
  exact Bool.false_ne_true other.symm

theorem IsDecimal.read {text : List Char} {value : Nat} (number : IsDecimal text value) :
    wholeNumber text = (Text.wholeDouble value 1).map Int.ofNat := by
  rw [Text.wholeNumber_digits text number.2.1 number.1, number.2.2]

theorem IsDecimal.read_small {text : List Char} {value : Nat} (number : IsDecimal text value)
    (small : value < 2 ^ 53) : wholeNumber text = some (value : Int) := by
  rw [number.read, Text.wholeDouble_of_small value small]
  rfl

/-- A number that is read as a small one is that one. -/
theorem IsDecimal.of_read {text : List Char} {value : Nat} (number : IsDecimal text value)
    {read : Int} (reads : wholeNumber text = some read) :
    0 ≤ read ∧ (read = value ∨ 2 ^ 52 ≤ read ∧ 2 ^ 53 ≤ value) := by
  rw [number.read] at reads
  obtain ⟨double, whole, rfl⟩ := map_eq_some_iff.mp reads
  refine ⟨Int.natCast_nonneg double, ?_⟩
  by_cases small : value < 2 ^ 53
  · rw [Text.wholeDouble_of_small value small] at whole
    exact .inl (congrArg Int.ofNat (some.inj whole).symm)
  · by_cases same : double < 2 ^ 52
    · exact .inl (congrArg Int.ofNat (Text.eq_of_wholeDouble value double whole same))
    · have large : (2 ^ 52 : Int) ≤ (double : Int) := by exact_mod_cast Nat.le_of_not_lt same
      exact .inr ⟨large, Nat.le_of_not_lt small⟩

/-- The numbers of a list in steps. -/
theorem mem_range'_iff {first last step value : Nat} (least : 1 ≤ step) (order : first ≤ last) :
    value ∈ List.range' first ((last - first) / step + 1) step ↔
      ∃ count, value = first + count * step ∧ value ≤ last := by
  rw [mem_range']
  constructor
  · rintro ⟨count, few, rfl⟩
    have steps := (Nat.le_div_iff_mul_le (by omega)).mp (Nat.le_of_lt_succ few)
    exact ⟨count, by rw [Nat.mul_comm], by rw [Nat.mul_comm]; omega⟩
  · rintro ⟨count, rfl, within⟩
    refine ⟨count, Nat.lt_succ_of_le ((Nat.le_div_iff_mul_le (by omega)).mpr (by omega)), ?_⟩
    rw [Nat.mul_comm]

variable {range : Nat × Nat}

theorem Span.Written.not_mem {span : Span} {text : List Char} (written : span.Written text)
    {char : Char} (other : char.isDigit = false) (noStar : char ≠ '*') (noDash : char ≠ '-') :
    char ∉ text := by
  cases written with
  | all => exact fun member => noStar (mem_singleton.mp member)
  | one number => exact number.not_mem other
  | between begins ends =>
    intro member
    rcases mem_append.mp member with front | back
    · exact begins.not_mem other front
    · rcases mem_cons.mp back with dash | back
      · exact noDash dash
      · exact ends.not_mem other back

theorem Part.Written.not_mem {part : Part} {text : List Char} (written : part.Written text) :
    ',' ∉ text := by
  cases written with
  | plain written => exact written.not_mem rfl (by decide) (by decide)
  | stepped written number =>
    intro member
    rcases mem_append.mp member with front | back
    · exact written.not_mem rfl (by decide) (by decide) front
    · rcases mem_cons.mp back with slash | back
      · exact absurd slash (by decide)
      · exact number.not_mem rfl back

theorem Part.Written.ne_nil {part : Part} {text : List Char} (written : part.Written text) :
    text ≠ [] := by
  cases written with
  | plain written =>
    cases written with
    | all => exact cons_ne_nil _ _
    | one number => exact number.1
    | between => exact append_ne_nil_of_right_ne_nil _ (cons_ne_nil _ _)
  | stepped => exact append_ne_nil_of_right_ne_nil _ (cons_ne_nil _ _)

/-- The pieces of a written part: its span, and its step where it has one. -/
theorem Part.Written.pieces {part : Part} {text : List Char} (written : part.Written text) :
    ∃ spec rest, text.splitOn '/' = spec :: rest ∧ part.span.Written spec ∧
      (rest = [] ∧ part.step = none ∨
        ∃ stepText step, rest = [stepText] ∧ part.step = some step ∧ IsDecimal stepText step) := by
  cases written with
  | plain written =>
    exact ⟨text, [], splitOn_eq_singleton (written.not_mem rfl (by decide) (by decide)),
      written, .inl ⟨rfl, rfl⟩⟩
  | @stepped span spec stepText step written number =>
    refine ⟨spec, [stepText], ?_, written, .inr ⟨stepText, step, rfl, rfl, number⟩⟩
    rw [splitOn_append_cons_self_of_not_mem (written.not_mem rfl (by decide) (by decide)),
      splitOn_eq_singleton (number.not_mem rfl)]

/-- A written span is taken exactly where it is within the range. -/
theorem Span.Written.taken_iff {span : Span} {spec : List Char} (written : span.Written spec)
    (small : range.2 < 2 ^ 52) : SpanTaken wholeNumber range spec ↔ span.Fits range := by
  cases written with
  | all => exact iff_of_true (.inl rfl) trivial
  | @one _ value number =>
    have noStar : spec ≠ ['*'] := by
      rintro rfl
      exact @IsDecimal.not_mem _ _ number '*' rfl mem_cons_self
    have single := splitOn_eq_singleton (@IsDecimal.not_mem _ _ number '-' rfl)
    constructor
    · rintro (star | ⟨_, _, first, pieces, read, low, ⟨_, high⟩ | ⟨_, _, _, more, _⟩⟩)
      · exact absurd star noStar
      · obtain ⟨rfl, rfl⟩ := cons.inj (single.symm.trans pieces)
        obtain ⟨_, rfl | ⟨large, _⟩⟩ := number.of_read read
        · exact ⟨by omega, by omega⟩
        · omega
      · obtain ⟨_, none_⟩ := cons.inj (single.symm.trans pieces)
        exact absurd (none_.trans more) (cons_ne_nil _ _).symm
    · rintro ⟨low, high⟩
      exact .inr ⟨spec, [], value, single, number.read_small (by omega), by omega,
        .inl ⟨rfl, by omega⟩⟩
  | @between from_ to_ first last begins ends =>
    have pieces : (from_ ++ '-' :: to_).splitOn '-' = [from_, to_] := by
      rw [splitOn_append_cons_self_of_not_mem (begins.not_mem rfl),
        splitOn_eq_singleton (ends.not_mem rfl)]
    constructor
    · rintro (star | ⟨_, _, first', apart, read, low, ⟨none_, _⟩ | both⟩)
      · have dash : '-' ∈ ['*'] := star ▸ mem_append_right _ mem_cons_self
        exact absurd dash (by decide)
      · obtain ⟨_, some_⟩ := cons.inj (pieces.symm.trans apart)
        exact absurd (some_.trans none_) (cons_ne_nil _ _)
      · obtain ⟨_, _, last', more, lastRead, order, high⟩ := both
        obtain ⟨rfl, rfl⟩ := cons.inj (pieces.symm.trans apart)
        obtain ⟨rfl, _⟩ := cons.inj more
        obtain ⟨_, rfl | ⟨large, _⟩⟩ := begins.of_read read
        · obtain ⟨_, rfl | ⟨large, _⟩⟩ := ends.of_read lastRead
          · exact ⟨by omega, by omega, by omega⟩
          · omega
        · omega
    · rintro ⟨low, order, high⟩
      exact .inr ⟨from_, [to_], first, pieces, begins.read_small (by omega), by omega,
        .inr ⟨to_, [], last, rfl, ends.read_small (by omega), by omega, by omega⟩⟩

/-- A written part is taken exactly where its numbers are within the range, and its step is one
that a double is near to. -/
theorem Part.Written.taken_iff {part : Part} {text : List Char} (written : part.Written text)
    (small : range.2 < 2 ^ 52) : Taken wholeNumber range text ↔
      part.Fits range ∧ ∀ step, part.step = some step → step < 2 ^ 1024 - 2 ^ 970 := by
  obtain ⟨spec, rest, pieces, spanWritten, stepWritten⟩ := written.pieces
  have taken : Taken wholeNumber range text ↔
      StepTaken wholeNumber rest ∧ SpanTaken wholeNumber range spec := by
    constructor
    · rintro ⟨_, _, same, both⟩
      obtain ⟨rfl, rfl⟩ := cons.inj (pieces.symm.trans same)
      exact both
    · exact fun both => ⟨spec, rest, pieces, both⟩
  have stepTaken : StepTaken wholeNumber rest ↔
      ∀ step, part.step = some step → 1 ≤ step ∧ step < 2 ^ 1024 - 2 ^ 970 := by
    rcases stepWritten with ⟨rfl, none_⟩ | ⟨stepText, step, rfl, some_, number⟩
    · rw [none_]
      exact iff_of_true (fun _ nothing => nomatch nothing) fun _ nothing => nomatch nothing
    · have finite : Text.wholeDouble step 1 ≠ none ↔ step < 2 ^ 1024 - 2 ^ 970 := by
        rw [Ne, Text.wholeDouble_eq_none_iff, Nat.not_le]
      rw [some_]
      constructor
      · rintro takes _ here
        obtain rfl := some.inj here
        obtain ⟨read, reads, least⟩ := takes stepText rfl number.1
        refine ⟨?_, finite.mp ?_⟩
        · obtain ⟨_, rfl | ⟨_, large⟩⟩ := number.of_read reads <;> omega
        · intro infinite
          rw [number.read, infinite] at reads
          exact nomatch reads
      · rintro both _ here _
        obtain rfl := some.inj here
        obtain ⟨least, under⟩ := both step rfl
        obtain ⟨double, whole⟩ := ne_none_iff_exists'.mp (finite.mpr under)
        have reads : wholeNumber stepText = some (double : Int) := by
          rw [number.read, whole]
          rfl
        refine ⟨double, reads, ?_⟩
        obtain ⟨_, same | ⟨large, _⟩⟩ := number.of_read reads <;> omega
  rw [taken, stepTaken, spanWritten.taken_iff small, Part.Fits]
  constructor
  · rintro ⟨steps, fits⟩
    exact ⟨⟨fits, fun step is_ => (steps step is_).1⟩, fun step is_ => (steps step is_).2⟩
  · rintro ⟨⟨fits, least⟩, under⟩
    exact ⟨fun step is_ => ⟨least step is_, under step is_⟩, fits⟩

/-- What the reader makes of a written span. -/
theorem Span.Written.bounds {part : Part} {spec : List Char} (written : part.span.Written spec)
    (small : range.2 < 2 ^ 52) (fits : part.span.Fits range) (notAll : spec ≠ ['*'])
    {bounds : Int × Int}
    (read : boundsRead wholeNumber range part.step.isSome spec = some bounds) :
    bounds = (((part.bounds range).1 : Int), ((part.bounds range).2 : Int)) := by
  obtain ⟨span, step⟩ := part
  cases written with
  | all => exact absurd rfl notAll
  | @one _ value number =>
    have under : value < 2 ^ 53 := by have := fits.2; omega
    rw [boundsRead, splitOn_eq_singleton (number.not_mem rfl), headD_cons,
      number.read_small under, bind_some] at read
    rw [← some.inj read]
    cases step <;> rfl
  | @between from_ to_ first last begins ends =>
    have order := fits.2
    rw [boundsRead, splitOn_append_cons_self_of_not_mem (begins.not_mem rfl),
      splitOn_eq_singleton (ends.not_mem rfl), headD_cons,
      begins.read_small (by omega), bind_some] at read
    simp only [ends.read_small (show last < 2 ^ 53 by omega), map_some] at read
    exact (some.inj read).symm

/-- The first number of a part that fits is not above its last. -/
theorem Part.Fits.ordered {part : Part} (fits : part.Fits range) (ordered : range.1 ≤ range.2) :
    (part.bounds range).1 ≤ (part.bounds range).2 ∧ (part.bounds range).2 ≤ range.2 := by
  obtain ⟨span, step⟩ := part
  obtain ⟨spanFits, _⟩ := fits
  cases span with
  | all => exact ⟨ordered, le_refl _⟩
  | one value =>
    cases step with
    | none => exact ⟨le_refl _, spanFits.2⟩
    | some step => exact ⟨spanFits.2, le_refl _⟩
  | between first last => exact ⟨spanFits.2.1, spanFits.2.2⟩

/-- The numbers of a written part are the ones it stands for. -/
theorem Part.Written.mem_iff {part : Part} {text : List Char} (written : part.Written text)
    (small : range.2 < 2 ^ 52) (ordered : range.1 ≤ range.2) (fits : part.Fits range)
    {values : List Nat} (parsed : parsePart wholeNumber range text = some values) (value : Nat) :
    value ∈ values ↔ part.Denotes range value := by
  obtain ⟨spec, rest, pieces, spanWritten, stepWritten⟩ := written.pieces
  rw [parsePart_eq wholeNumber range pieces] at parsed
  obtain ⟨read, stepIs, parsed⟩ := bind_eq_some_iff.mp parsed
  rw [ite_eq_iff] at parsed
  obtain ⟨_, nothing⟩ | ⟨least, parsed⟩ := parsed
  · cases nothing
  have order := fits.ordered ordered
  -- a step that is not read as it stands is past the range either way
  have stepReads : part.step.isSome = decide (rest.headD [] ≠ []) ∧ 1 ≤ part.step.getD 1 ∧
      (read = part.step.getD 1 ∨ 2 ^ 52 ≤ read ∧ 2 ^ 52 ≤ part.step.getD 1) := by
    rcases stepWritten with ⟨rfl, none_⟩ | ⟨stepText, step, rfl, some_, number⟩
    · rw [none_]
      exact ⟨rfl, le_refl _, .inl (some.inj stepIs).symm⟩
    · rw [stepRead, headD_cons, if_neg number.1] at stepIs
      rw [some_, headD_cons]
      refine ⟨(decide_eq_true number.1).symm, fits.2 step some_, ?_⟩
      obtain ⟨_, same | ⟨large, past⟩⟩ := number.of_read stepIs
      · exact .inl same
      · exact .inr ⟨large, by simp only [getD_some]; omega⟩
  obtain ⟨stepped, leastStep, reads⟩ := stepReads
  have listed : values = List.range' (part.bounds range).1
      (((part.bounds range).2 - (part.bounds range).1) / read.toNat + 1) read.toNat := by
    rw [ite_eq_iff] at parsed
    obtain ⟨star, all⟩ | ⟨notAll, parsed⟩ := parsed
    · have isAll : part.span = .all := by
        generalize part.span = span at spanWritten
        cases spanWritten with
        | all => rfl
        | one number =>
          exact absurd (star ▸ mem_cons_self) (@IsDecimal.not_mem _ _ number '*' rfl)
        | between begins _ =>
          have dash : '-' ∈ ['*'] := star ▸ mem_append_right _ mem_cons_self
          exact absurd dash (by decide)
      rw [← some.inj all, Part.bounds, isAll]
    · obtain ⟨bounds, spanRead, parsed⟩ := bind_eq_some_iff.mp parsed
      rw [← stepped] at spanRead
      have same := spanWritten.bounds small fits.1 notAll spanRead
      rw [ite_eq_iff] at parsed
      obtain ⟨_, nothing⟩ | ⟨_, parsed⟩ := parsed
      · cases nothing
      rw [← some.inj parsed, same]
      congr 2
      congr 1
      omega
  rw [listed, mem_range'_iff (by omega) order.1, Part.Denotes]
  rcases reads with same | ⟨far, past⟩
  · rw [same, Int.toNat_natCast]
  · constructor
    · rintro ⟨count, rfl, within⟩
      have none_ : count = 0 := by
        by_contra some_
        have once := Nat.le_mul_of_pos_left read.toNat (Nat.pos_of_ne_zero some_)
        omega
      exact ⟨0, by rw [none_, Nat.zero_mul, Nat.zero_mul], within⟩
    · rintro ⟨count, rfl, within⟩
      have none_ : count = 0 := by
        by_contra some_
        have once := Nat.le_mul_of_pos_left (part.step.getD 1) (Nat.pos_of_ne_zero some_)
        omega
      exact ⟨0, by rw [none_, Nat.zero_mul, Nat.zero_mul], within⟩

end Written

/-! ### Fields and texts -/

/-- The five sets of a cron text. -/
def Cron.sets (cron : Cron) : List (List Nat) :=
  [cron.minute, cron.hour, cron.dom, cron.month, cron.dow]

/-- What the reader takes as a field: every piece between commas is one it can take. -/
def FieldTaken (range : Nat × Nat) (field : List Char) : Prop :=
  ∀ text ∈ field.splitOn ',', Taken wholeNumber range text

/-- What the reader takes: five fields, and in each only pieces it can take. -/
def TakenLoosely (expression : List Char) : Prop :=
  ∃ texts, Spaced texts (Text.trimmed expression) ∧ List.Forall₂ FieldTaken RANGES texts

theorem fieldTaken_iff (range : Nat × Nat) (field : List Char) :
    FieldTaken range field ↔ ∃ values, parseField wholeNumber field range = some values := by
  unfold FieldTaken parseField
  simp only [taken_iff, ← Systems.exists_mapM_iff, map_eq_some_iff]
  constructor
  · rintro ⟨lists, parsed⟩
    exact ⟨lists.flatten, lists, parsed, rfl⟩
  · rintro ⟨_, lists, parsed, _⟩
    exact ⟨lists, parsed⟩

section Fields

variable {range : Nat × Nat}

theorem FieldWritten.splitOn {parts : List Part} {field : List Char}
    (written : FieldWritten parts field) :
    List.Forall₂ Part.Written parts (field.splitOn ',') := by
  obtain ⟨texts, some_, rfl, each⟩ := written
  rw [splitOn_intercalate ',' ?_ some_]
  · exact each
  · clear some_
    induction each with
    | nil => exact forall_mem_nil _
    | cons here _ inductionHypothesis => exact forall_mem_cons.mpr ⟨here.not_mem, inductionHypothesis⟩

/-- A written field is taken exactly where its parts fit. -/
theorem FieldWritten.taken_iff {parts : List Part} {field : List Char}
    (written : FieldWritten parts field) (small : range.2 < 2 ^ 52) :
    FieldTaken range field ↔ ∀ part ∈ parts,
      part.Fits range ∧ ∀ step, part.step = some step → step < 2 ^ 1024 - 2 ^ 970 := by
  have each := written.splitOn
  unfold FieldTaken
  clear written
  generalize field.splitOn ',' = texts at each
  induction each with
  | nil => exact iff_of_true (forall_mem_nil _) (forall_mem_nil _)
  | cons here _ inductionHypothesis =>
    rw [forall_mem_cons, forall_mem_cons]
    exact and_congr (here.taken_iff small) inductionHypothesis

/-- The numbers of a written field are the ones its parts stand for. -/
theorem FieldWritten.mem_iff {parts : List Part} {field : List Char}
    (written : FieldWritten parts field) (small : range.2 < 2 ^ 52) (ordered : range.1 ≤ range.2)
    (fits : ∀ part ∈ parts, part.Fits range) {values : List Nat}
    (parsed : parseField wholeNumber field range = some values) (value : Nat) :
    value ∈ values ↔ ∃ part ∈ parts, part.Denotes range value := by
  obtain ⟨lists, read, rfl⟩ := map_eq_some_iff.mp parsed
  have each := Systems.mapM_eq_some_iff.mp read
  have parted := written.splitOn
  clear written parsed read
  generalize field.splitOn ',' = texts at each parted
  induction parted generalizing lists with
  | nil =>
    cases each
    exact iff_of_false not_mem_nil fun ⟨_, member, _⟩ => nomatch member
  | cons here _ inductionHypothesis =>
    cases each with
    | cons made rest =>
      obtain ⟨fitsHere, fitsRest⟩ := forall_mem_cons.mp fits
      have others := inductionHypothesis fitsRest _ rest
      simp only [flatten_cons, mem_append, mem_cons, exists_eq_or_imp]
      exact or_congr (here.mem_iff small ordered fitsHere made value) others

end Fields

/-- What the reader has read, it has read field by field. -/
theorem fields_of_parseCron {expression : List Char} {cron : Cron}
    (parsed : parseCron wholeNumber expression = some cron) :
    ∃ texts, Text.wordsOf expression = texts ∧
      List.Forall₂ (fun (range : Nat × Nat) text => ∃ values,
        parseField wholeNumber text range = some values) RANGES texts ∧
      List.Forall₂ (fun text (field : (Nat × Nat) × List Nat) =>
        parseField wholeNumber text field.1 = some field.2) texts (RANGES.zip cron.sets) := by
  unfold parseCron at parsed
  split at parsed
  · next minute hour dom month dow words =>
    obtain ⟨minutes, first, parsed⟩ := bind_eq_some_iff.mp parsed
    obtain ⟨hours, second, parsed⟩ := bind_eq_some_iff.mp parsed
    obtain ⟨doms, third, parsed⟩ := bind_eq_some_iff.mp parsed
    obtain ⟨months, fourth, parsed⟩ := bind_eq_some_iff.mp parsed
    obtain ⟨dows, fifth, parsed⟩ := bind_eq_some_iff.mp parsed
    obtain rfl := some.inj parsed
    refine ⟨[minute, hour, dom, month, dow], words, ?_, ?_⟩
    · exact .cons ⟨_, first⟩ (.cons ⟨_, second⟩ (.cons ⟨_, third⟩ (.cons ⟨_, fourth⟩
        (.cons ⟨_, fifth⟩ .nil))))
    · exact .cons first (.cons second (.cons third (.cons fourth (.cons fifth .nil))))
  · cases parsed

/-- The reader takes exactly the texts it can take. -/
theorem exists_parseCron_iff (expression : List Char) :
    (∃ cron, parseCron wholeNumber expression = some cron) ↔ TakenLoosely expression := by
  have words (texts : List (List Char)) (five : List.Forall₂ FieldTaken RANGES texts) :
      Spaced texts (Text.trimmed expression) ↔ Text.wordsOf expression = texts := by
    refine Text.spaced_trimmed_iff texts ?_ expression
    rintro rfl
    cases five
  constructor
  · rintro ⟨cron, parsed⟩
    obtain ⟨texts, same, each, _⟩ := fields_of_parseCron parsed
    have taken : List.Forall₂ FieldTaken RANGES texts :=
      each.imp fun range text => (fieldTaken_iff range text).mpr
    exact ⟨texts, (words texts taken).mpr same, taken⟩
  · rintro ⟨texts, spaced, five⟩
    have same := (words texts five).mp spaced
    simp only [RANGES, List.forall₂_cons_left_iff, List.forall₂_nil_left_iff, fieldTaken_iff]
      at five
    obtain ⟨minute, _, ⟨minutes, first⟩, ⟨hour, _, ⟨hours, second⟩, ⟨dom, _, ⟨doms, third⟩,
      ⟨month, _, ⟨months, fourth⟩, ⟨dow, _, ⟨dows, fifth⟩, rfl, rfl⟩, rfl⟩, rfl⟩, rfl⟩, rfl⟩ := five
    have fields : Text.wordsOf expression = [minute, hour, dom, month, dow] := same
    unfold parseCron
    rw [fields]
    simp only [first, second, third, fourth, fifth, bind_eq_bind, bind_some]
    exact ⟨_, rfl⟩

/-! ### The grammar and the reader -/

/-- Every step of a text is below the numbers that no double is near to. -/
def StepsSmall (fields : List (List Part)) : Prop :=
  ∀ parts ∈ fields, ∀ part ∈ parts, ∀ step, part.step = some step → step < 2 ^ 1024 - 2 ^ 970

theorem forall₂_taken_iff {ranges : List (Nat × Nat)} {fields : List (List Part)}
    {texts : List (List Char)} (written : List.Forall₂ FieldWritten fields texts)
    (small : ∀ range ∈ ranges, range.2 < 2 ^ 52) :
    List.Forall₂ FieldTaken ranges texts ↔
      List.Forall₂ (fun range parts => ∀ part ∈ parts, Part.Fits range part) ranges fields ∧
        StepsSmall fields := by
  induction written generalizing ranges with
  | nil =>
    rw [List.forall₂_nil_right_iff, List.forall₂_nil_right_iff]
    exact ⟨fun none_ => ⟨none_, fun _ member => nomatch member⟩, And.left⟩
  | @cons parts field fields texts here _ inductionHypothesis =>
    cases ranges with
    | nil => exact iff_of_false (fun some_ => nomatch some_) fun both => nomatch both.1
    | cons range ranges =>
      obtain ⟨smallHere, smallRest⟩ := forall_mem_cons.mp small
      rw [List.forall₂_cons, List.forall₂_cons, here.taken_iff smallHere, inductionHypothesis smallRest, StepsSmall,
        StepsSmall, forall_mem_cons]
      constructor
      · rintro ⟨taken, fits, steps⟩
        exact ⟨⟨fun part member => (taken part member).1, fits⟩,
          fun part member => (taken part member).2, steps⟩
      · rintro ⟨⟨fitsHere, fits⟩, stepsHere, steps⟩
        exact ⟨fun part member => ⟨fitsHere part member, stepsHere part member⟩, fits, steps⟩

/-- A text of the grammar is taken exactly where its numbers fit and its steps are small. -/
theorem CronWritten.taken_iff {fields : List (List Part)} {expression : List Char}
    (written : CronWritten fields expression) :
    TakenLoosely expression ↔ Grammatical fields expression ∧ StepsSmall fields := by
  have small : ∀ range ∈ RANGES, range.2 < 2 ^ 52 := by decide
  obtain ⟨texts, five, spaced, each⟩ := written
  have taken : TakenLoosely expression ↔ List.Forall₂ FieldTaken RANGES texts := by
    constructor
    · rintro ⟨others, otherSpaced, taken⟩
      have same : others = texts := otherSpaced.wordsOf_eq.symm.trans spaced.wordsOf_eq
      exact same ▸ taken
    · exact fun taken => ⟨texts, spaced, taken⟩
  rw [taken, forall₂_taken_iff each small, Grammatical]
  exact ⟨fun both => ⟨⟨⟨texts, five, spaced, each⟩, both.1⟩, both.2⟩,
    fun both => ⟨both.1.2, both.2⟩⟩

/-- What the sets of a cron text should hold: what the parts of its fields stand for. -/
def Holds (fields : List (List Part)) (cron : Cron) : Prop :=
  List.Forall₂ (fun (field : (Nat × Nat) × List Nat) parts =>
    ∀ value, value ∈ field.2 ↔ ∃ part ∈ parts, Part.Denotes field.1 part value)
    (RANGES.zip cron.sets) fields

theorem forall₂_holds {ranged : List ((Nat × Nat) × List Nat)} {fields : List (List Part)}
    {texts : List (List Char)} (written : List.Forall₂ FieldWritten fields texts)
    (small : ∀ field ∈ ranged, field.1.1 ≤ field.1.2 ∧ field.1.2 < 2 ^ 52)
    (fits : List.Forall₂ (fun (field : (Nat × Nat) × List Nat) parts =>
      ∀ part ∈ parts, Part.Fits field.1 part) ranged fields)
    (parsed : List.Forall₂ (fun text (field : (Nat × Nat) × List Nat) =>
      parseField wholeNumber text field.1 = some field.2) texts ranged) :
    List.Forall₂ (fun (field : (Nat × Nat) × List Nat) parts =>
      ∀ value, value ∈ field.2 ↔ ∃ part ∈ parts, Part.Denotes field.1 part value)
      ranged fields := by
  induction written generalizing ranged with
  | nil =>
    cases parsed
    exact .nil
  | cons here _ inductionHypothesis =>
    cases parsed with
    | cons made rest =>
      obtain ⟨smallHere, smallRest⟩ := forall_mem_cons.mp small
      obtain ⟨fitsHere, fitsRest⟩ := List.forall₂_cons.mp fits
      exact .cons (here.mem_iff smallHere.2 smallHere.1 fitsHere made) (inductionHypothesis smallRest fitsRest rest)

/-- What is read of a text of the grammar is what its parts stand for. -/
theorem Grammatical.holds {fields : List (List Part)} {expression : List Char}
    (grammatical : Grammatical fields expression) {cron : Cron}
    (parsed : parseCron wholeNumber expression = some cron) : Holds fields cron := by
  obtain ⟨⟨texts, _, spaced, written⟩, fits⟩ := grammatical
  obtain ⟨_, rfl, _, each⟩ := fields_of_parseCron parsed
  rw [← Text.wordsOf_trimmed, spaced.wordsOf_eq] at each
  refine forall₂_holds written ?_ ?_ each
  · simp only [RANGES, Cron.sets, zip_cons_cons, zip_nil_right, forall_mem_cons,
      not_mem_nil, false_implies, implies_true]
    decide
  · simp only [RANGES, List.forall₂_cons_left_iff, List.forall₂_nil_left_iff] at fits
    obtain ⟨minute, _, first, ⟨hour, _, second, ⟨dom, _, third, ⟨month, _, fourth, ⟨dow, _, fifth,
      rfl, rfl⟩, rfl⟩, rfl⟩, rfl⟩, rfl⟩ := fits
    exact .cons first (.cons second (.cons third (.cons fourth (.cons fifth .nil))))

/-- The reader and the grammar agree on a text: it is taken exactly where it is a text of the
grammar, and then each set holds what the parts of its field stand for. -/
def Agrees (expression : List Char) : Prop :=
  ((∃ cron, parseCron wholeNumber expression = some cron) ↔
      ∃ fields, Grammatical fields expression) ∧
    ∀ cron, parseCron wholeNumber expression = some cron →
      ∀ fields, Grammatical fields expression → Holds fields cron

/-- A list of minutes that ends in a comma is no list of the grammar, and is taken. -/
theorem trailing_comma : ¬Agrees "5, * * * *".toList := by
  rintro ⟨same, _⟩
  have taken : ∃ cron, parseCron wholeNumber "5, * * * *".toList = some cron :=
    isSome_iff_exists.mp (by decide +kernel)
  obtain ⟨fields, ⟨texts, _, spaced, written⟩, _⟩ := same.mp taken
  have words : Text.wordsOf (Text.trimmed "5, * * * *".toList) =
      ["5,".toList, "*".toList, "*".toList, "*".toList, "*".toList] := by decide +kernel
  obtain rfl := spaced.wordsOf_eq.symm.trans words
  cases written with
  | cons minutes _ =>
    have pieces := minutes.splitOn
    have apart : "5,".toList.splitOn ',' = ["5".toList, []] := by decide +kernel
    rw [apart] at pieces
    cases pieces with
    | cons _ rest =>
      cases rest with
      | cons empty _ => exact empty.ne_nil rfl

/-- The reader and the grammar agree on every text but two kinds: a text that is taken although a
piece of it is not written as a part is, and a text of the grammar with a step that no double is
near to. -/
theorem agrees_iff (expression : List Char) :
    Agrees expression ↔
      ¬(TakenLoosely expression ∧ ¬∃ fields, CronWritten fields expression) ∧
        ¬∃ fields, Grammatical fields expression ∧ ¬StepsSmall fields := by
  unfold Agrees
  rw [exists_parseCron_iff]
  constructor
  · rintro ⟨same, _⟩
    constructor
    · rintro ⟨taken, unwritten⟩
      obtain ⟨fields, grammatical⟩ := same.mp taken
      exact unwritten ⟨fields, grammatical.1⟩
    · rintro ⟨fields, grammatical, large⟩
      have taken := same.mpr ⟨fields, grammatical⟩
      exact large (grammatical.1.taken_iff.mp taken).2
  · rintro ⟨loosely, large⟩
    refine ⟨⟨?_, ?_⟩, fun cron parsed fields grammatical => grammatical.holds parsed⟩
    · intro taken
      by_contra none_
      refine loosely ⟨taken, fun written => ?_⟩
      obtain ⟨fields, written⟩ := written
      exact none_ ⟨fields, (written.taken_iff.mp taken).1⟩
    · rintro ⟨fields, grammatical⟩
      refine grammatical.1.taken_iff.mpr ⟨grammatical, ?_⟩
      by_contra past
      exact large ⟨fields, grammatical, past⟩

end Geeboard.Scheduling
