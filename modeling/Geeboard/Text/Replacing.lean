/-
This file is about replacing: each place where a pattern stands in a text, from the
left and none over another, gives way to a mark. Texts are of any items that read as
signs, so that an item may carry where it came from.

Replacing several patterns one after another looks at marks as well as at what is
left of the text. As long as a pattern is found among marks or among what is left,
and not over an edge between the two, what is left is what stays when the places are
only crossed out, with no marks put there.
-/

import Mathlib.Data.List.Basic
import Mathlib.Data.List.Infix
import Mathlib.Data.List.TakeWhile

namespace Text

open List

variable {Item Sign : Type} [DecidableEq Sign]

/-! ### Replacing a pattern by a mark -/

/-- The text between the places of a pattern, the first so many items being passed over. -/
def splitFrom (pattern : List Sign) : Nat → List Sign → List (List Sign)
  | _, [] => [[]]
  | 0, sign :: rest =>
    if pattern.isPrefixOf (sign :: rest) then [] :: splitFrom pattern (pattern.length - 1) rest
    else (splitFrom pattern 0 rest).modifyHead (sign :: ·)
  | skip + 1, _ :: rest => splitFrom pattern skip rest

/-- A text cut at each place of a pattern that is not empty. -/
def splitBy (pattern text : List Sign) : List (List Sign) := splitFrom pattern 0 text

/-- The text with a mark for each place of the pattern, the first so many items being passed
over. -/
def replacedFrom (reads : Item → Sign) (pattern : List Sign) (mark : List Item) :
    Nat → List Item → List Item
  | _, [] => []
  | 0, item :: rest =>
    if pattern.isPrefixOf ((item :: rest).map reads) then
      mark ++ replacedFrom reads pattern mark (pattern.length - 1) rest
    else item :: replacedFrom reads pattern mark 0 rest
  | skip + 1, _ :: rest => replacedFrom reads pattern mark skip rest

/-- The text with a mark for each place of the pattern. -/
def replaced (reads : Item → Sign) (pattern : List Sign) (mark text : List Item) : List Item :=
  replacedFrom reads pattern mark 0 text

theorem splitFrom_ne_nil (pattern : List Sign) (skip : Nat) (text : List Sign) :
    splitFrom pattern skip text ≠ [] := by
  induction text generalizing skip with
  | nil =>
    unfold splitFrom
    exact cons_ne_nil _ _
  | cons sign rest inductionHypothesis =>
    cases skip with
    | zero =>
      unfold splitFrom
      split
      · exact cons_ne_nil _ _
      · intro none_
        exact inductionHypothesis 0 (modifyHead_eq_nil_iff.mp none_)
    | succ skip => exact inductionHypothesis skip

omit [DecidableEq Sign] in
theorem intercalate_modifyHead (mark : List Sign) (sign : Sign) {parts : List (List Sign)}
    (some_ : parts ≠ []) :
    mark.intercalate (parts.modifyHead (sign :: ·)) = sign :: mark.intercalate parts := by
  obtain ⟨part, parts, rfl⟩ := exists_cons_of_ne_nil some_
  cases parts with
  | nil => simp only [modifyHead_cons, intercalate_singleton]
  | cons next parts =>
    simp only [modifyHead_cons, intercalate_cons_cons, cons_append]

/-- Cutting at a pattern and joining with a mark replaces the pattern by the mark. -/
theorem intercalate_splitFrom (pattern mark : List Sign) (skip : Nat) (text : List Sign) :
    mark.intercalate (splitFrom pattern skip text) =
      replacedFrom id pattern mark skip text := by
  induction text generalizing skip with
  | nil =>
    unfold splitFrom replacedFrom
    rw [intercalate_singleton]
  | cons sign rest inductionHypothesis =>
    cases skip with
    | zero =>
      unfold splitFrom replacedFrom
      rw [List.map_id]
      split
      · obtain ⟨part, parts, same⟩ :=
          exists_cons_of_ne_nil (splitFrom_ne_nil pattern (pattern.length - 1) rest)
        rw [← inductionHypothesis, same, intercalate_cons_cons, nil_append]
      · rw [intercalate_modifyHead mark sign (splitFrom_ne_nil pattern 0 rest),
          inductionHypothesis]
    | succ skip => exact inductionHypothesis skip

theorem intercalate_splitBy (pattern mark text : List Sign) :
    mark.intercalate (splitBy pattern text) = replaced id pattern mark text :=
  intercalate_splitFrom pattern mark 0 text

/-- What the items carry besides what they read as does not matter. -/
theorem map_replacedFrom (reads : Item → Sign) (pattern : List Sign) (mark : List Item)
    (skip : Nat) (text : List Item) :
    (replacedFrom reads pattern mark skip text).map reads =
      replacedFrom id pattern (mark.map reads) skip (text.map reads) := by
  induction text generalizing skip with
  | nil =>
    unfold replacedFrom
    rfl
  | cons item rest inductionHypothesis =>
    cases skip with
    | zero =>
      rw [map_cons]
      unfold replacedFrom
      rw [List.map_id, map_cons]
      split
      · rw [map_append, inductionHypothesis]
      · rw [map_cons, inductionHypothesis]
    | succ skip => exact inductionHypothesis skip

theorem map_replaced (reads : Item → Sign) (pattern : List Sign) (mark text : List Item) :
    (replaced reads pattern mark text).map reads =
      replaced id pattern (mark.map reads) (text.map reads) :=
  map_replacedFrom reads pattern mark 0 text

section

variable (reads : Item → Sign) {pattern : List Sign} (mark : List Item)

theorem replacedFrom_skip (skip : Nat) (text : List Item) :
    replacedFrom reads pattern mark skip text =
      replaced reads pattern mark (text.drop skip) := by
  induction text generalizing skip with
  | nil =>
    rw [drop_nil]
    unfold replaced replacedFrom
    rfl
  | cons item rest inductionHypothesis =>
    cases skip with
    | zero => rfl
    | succ skip => exact inductionHypothesis skip

theorem replaced_of_begins {text : List Item} (some_ : pattern ≠ [])
    (begins : pattern.isPrefixOf (text.map reads) = true) :
    replaced reads pattern mark text =
      mark ++ replaced reads pattern mark (text.drop pattern.length) := by
  obtain ⟨sign, more, rfl⟩ := exists_cons_of_ne_nil some_
  cases text with
  | nil => exact absurd begins Bool.false_ne_true
  | cons item rest =>
    unfold replaced
    rw [replacedFrom, if_pos begins, replacedFrom_skip]
    rfl

theorem replaced_cons {item : Item} {rest : List Item}
    (begins : pattern.isPrefixOf ((item :: rest).map reads) = false) :
    replaced reads pattern mark (item :: rest) = item :: replaced reads pattern mark rest := by
  unfold replaced
  rw [replacedFrom, if_neg (ne_true_of_eq_false begins)]

end

/-! ### Crossing a pattern out -/

/-- What a text reads as up to the first item that is crossed out. -/
def shownFirst (reads : Item → Sign) (text : List (Item × Bool)) : List Sign :=
  (text.takeWhile fun item => !item.2).map fun item => reads item.1

/-- The text with the places of the pattern crossed out among what is not crossed out yet, the
first so many items being the rest of such a place. -/
def crossedFrom (reads : Item → Sign) (pattern : List Sign) :
    Nat → List (Item × Bool) → List (Item × Bool)
  | _, [] => []
  | 0, item :: rest =>
    if pattern.isPrefixOf (shownFirst reads (item :: rest)) then
      (item.1, true) :: crossedFrom reads pattern (pattern.length - 1) rest
    else item :: crossedFrom reads pattern 0 rest
  | skip + 1, item :: rest => (item.1, true) :: crossedFrom reads pattern skip rest

/-- The text with the places of the pattern crossed out among what is not crossed out yet. -/
def crossed (reads : Item → Sign) (pattern : List Sign) (text : List (Item × Bool)) :
    List (Item × Bool) :=
  crossedFrom reads pattern 0 text

/-- The items that are not crossed out. -/
def standing (text : List (Item × Bool)) : List Item :=
  (text.filter fun item => !item.2).map Prod.fst

section

variable (reads : Item → Sign) {pattern : List Sign}

theorem crossedFrom_skip (skip : Nat) (text : List (Item × Bool)) :
    crossedFrom reads pattern skip text =
      ((text.take skip).map fun item => (item.1, true)) ++
        crossed reads pattern (text.drop skip) := by
  induction text generalizing skip with
  | nil =>
    rw [drop_nil, take_nil]
    unfold crossed crossedFrom
    rfl
  | cons item rest inductionHypothesis =>
    cases skip with
    | zero => rfl
    | succ skip =>
      rw [take_succ_cons, drop_succ_cons, map_cons, cons_append,
        ← inductionHypothesis]
      rfl

theorem crossed_of_begins {text : List (Item × Bool)} (some_ : pattern ≠ [])
    (begins : pattern.isPrefixOf (shownFirst reads text) = true) :
    crossed reads pattern text =
      ((text.take pattern.length).map fun item => (item.1, true)) ++
        crossed reads pattern (text.drop pattern.length) := by
  obtain ⟨sign, more, rfl⟩ := exists_cons_of_ne_nil some_
  cases text with
  | nil => exact absurd begins Bool.false_ne_true
  | cons item rest =>
    rw [crossed, crossedFrom, if_pos begins, crossedFrom_skip]
    rfl

theorem crossed_cons {item : Item × Bool} {rest : List (Item × Bool)}
    (begins : pattern.isPrefixOf (shownFirst reads (item :: rest)) = false) :
    crossed reads pattern (item :: rest) = item :: crossed reads pattern rest := by
  rw [crossed, crossedFrom, if_neg (ne_true_of_eq_false begins)]
  rfl

/-- A pattern does not begin at an item that is crossed out. -/
theorem crossed_cons_gone (some_ : pattern ≠ []) (item : Item) (rest : List (Item × Bool)) :
    crossed reads pattern ((item, true) :: rest) = (item, true) :: crossed reads pattern rest := by
  refine crossed_cons reads ?_
  obtain ⟨sign, more, rfl⟩ := exists_cons_of_ne_nil some_
  rfl

end

/-! ### A text with marks beside the text with items crossed out -/

/-- A text with marks in it beside the text with items crossed out: what is left in the one stands
in the other, and between two items of it there are marks just where items are crossed out. The
flag is on where both have been met since the last item that stands. -/
inductive MarkedUp (isMark : Item → Bool) : Bool → List (Item × Bool) → List Item → Prop
  | done (met : Bool) : MarkedUp isMark met [] []
  | stands (met : Bool) {item : Item} {text : List (Item × Bool)} {marked : List Item}
      (own : isMark item = false) (rest : MarkedUp isMark false text marked) :
      MarkedUp isMark met ((item, false) :: text) (item :: marked)
  | gone (item : Item) {text : List (Item × Bool)} {marked : List Item}
      (rest : MarkedUp isMark true text marked) :
      MarkedUp isMark true ((item, true) :: text) marked
  | mark {item : Item} {text : List (Item × Bool)} {marked : List Item}
      (set : isMark item = true) (rest : MarkedUp isMark true text marked) :
      MarkedUp isMark true text (item :: marked)
  | both (item : Item) {put : Item} {text : List (Item × Bool)} {marked : List Item}
      (set : isMark put = true) (rest : MarkedUp isMark true text marked) :
      MarkedUp isMark false ((item, true) :: text) (put :: marked)

/-- The pattern is found in the text among marks or among what is no mark, not over an edge
between the two. -/
def ApartFromMarks (reads : Item → Sign) (isMark : Item → Bool) (pattern : List Sign)
    (text : List Item) : Prop :=
  ∀ start < text.length, pattern.isPrefixOf ((text.drop start).map reads) = true →
    (∀ item ∈ (text.drop start).take pattern.length, isMark item = true) ∨
      ∀ item ∈ (text.drop start).take pattern.length, isMark item = false

instance (reads : Item → Sign) (isMark : Item → Bool) (pattern : List Sign) (text : List Item) :
    Decidable (ApartFromMarks reads isMark pattern text) :=
  inferInstanceAs (Decidable (∀ start < text.length, _ → _ ∨ _))

namespace MarkedUp

variable {isMark : Item → Bool} {met : Bool} {text : List (Item × Bool)} {marked : List Item}

/-- Nothing is crossed out of a text without marks. -/
theorem of_own {plain : List Item} (own : ∀ item ∈ plain, isMark item = false) :
    MarkedUp isMark false (plain.map fun item => (item, false)) plain := by
  induction plain with
  | nil => exact .done false
  | cons item rest inductionHypothesis =>
    exact .stands false (own item mem_cons_self)
      (inductionHypothesis fun other member => own other (mem_cons_of_mem item member))

/-- What is no mark is what is not crossed out. -/
theorem standing_eq (marks : MarkedUp isMark met text marked) :
    marked.filter (fun item => !isMark item) = standing text := by
  induction marks with
  | done => rfl
  | stands met own rest inductionHypothesis =>
    unfold standing
    rw [filter_cons_of_pos (by rw [own]; rfl), filter_cons_of_pos rfl, map_cons,
      inductionHypothesis]
    rfl
  | gone item rest inductionHypothesis =>
    unfold standing
    rw [filter_cons_of_neg Bool.false_ne_true]
    exact inductionHypothesis
  | mark set rest inductionHypothesis =>
    rw [filter_cons_of_neg (by rw [set]; exact Bool.false_ne_true)]
    exact inductionHypothesis
  | both item set rest inductionHypothesis =>
    unfold standing
    rw [filter_cons_of_neg (by rw [set]; exact Bool.false_ne_true),
      filter_cons_of_neg Bool.false_ne_true]
    exact inductionHypothesis

/-- With both met, more can be met. -/
theorem met_of_not (marks : MarkedUp isMark met text marked) : MarkedUp isMark true text marked := by
  induction marks with
  | done => exact .done true
  | stands met own rest => exact .stands true own rest
  | gone item rest => exact .gone item rest
  | mark set rest => exact .mark set rest
  | both item set rest => exact .gone item (.mark set rest)

theorem gone_append (crossedOut : List Item) (marks : MarkedUp isMark true text marked) :
    MarkedUp isMark true (crossedOut.map (fun item => (item, true)) ++ text) marked := by
  induction crossedOut with
  | nil => exact marks
  | cons item rest inductionHypothesis => exact .gone item inductionHypothesis

theorem mark_append {mark : List Item} (set : ∀ item ∈ mark, isMark item = true)
    (marks : MarkedUp isMark true text marked) : MarkedUp isMark true text (mark ++ marked) := by
  induction mark with
  | nil => exact marks
  | cons item rest inductionHypothesis =>
    exact .mark (set item mem_cons_self)
      (inductionHypothesis fun other member => set other (mem_cons_of_mem item member))

/-- Items crossed out with a mark put there. -/
theorem both_append {crossedOut mark : List Item} (someGone : crossedOut ≠ [])
    (someMark : mark ≠ []) (set : ∀ item ∈ mark, isMark item = true)
    (marks : MarkedUp isMark true text marked) (met : Bool) :
    MarkedUp isMark met (crossedOut.map (fun item => (item, true)) ++ text) (mark ++ marked) := by
  cases met with
  | true => exact gone_append crossedOut (mark_append set marks)
  | false =>
    obtain ⟨item, more, rfl⟩ := exists_cons_of_ne_nil someGone
    obtain ⟨put, others, rfl⟩ := exists_cons_of_ne_nil someMark
    exact .both item (set put mem_cons_self) (gone_append more
      (mark_append (fun other member => set other (mem_cons_of_mem put member)) marks))

/-- After an item that stands, what is no mark stands in both. -/
theorem exists_text_of_own {own after : List Item} (allOwn : ∀ item ∈ own, isMark item = false)
    (marks : MarkedUp isMark false text (own ++ after)) :
    ∃ rest, text = own.map (fun item => (item, false)) ++ rest ∧
      MarkedUp isMark false rest after := by
  induction own generalizing text with
  | nil => exact ⟨text, rfl, marks⟩
  | cons item more inductionHypothesis =>
    cases marks with
    | stands _ _ rest =>
      obtain ⟨left, same, marks⟩ := inductionHypothesis
        (fun other member => allOwn other (mem_cons_of_mem item member)) rest
      exact ⟨left, by rw [same]; rfl, marks⟩
    | both _ set rest =>
      rw [allOwn item mem_cons_self] at set
      exact absurd set Bool.false_ne_true

/-- After an item that stands, what is not crossed out stands in both. -/
theorem exists_marked_of_standing {own : List Item} {rest : List (Item × Bool)}
    (marks : MarkedUp isMark false (own.map (fun item => (item, false)) ++ rest) marked) :
    (∀ item ∈ own, isMark item = false) ∧ ∃ after, marked = own ++ after := by
  induction own generalizing marked with
  | nil => exact ⟨fun item member => absurd member not_mem_nil, marked, rfl⟩
  | cons item more inductionHypothesis =>
    cases marks with
    | stands _ own rest =>
      obtain ⟨allOwn, after, same⟩ := inductionHypothesis rest
      exact ⟨forall_mem_cons.mpr ⟨own, allOwn⟩, after, by rw [same]; rfl⟩

/-- Where marks begin a text, items are crossed out, and after the marks both have been met. -/
theorem exists_text_of_marks {some_ after : List Item} (notNil : some_ ≠ [])
    (set : ∀ item ∈ some_, isMark item = true) {before : List Item}
    (same : before = some_ ++ after) (marks : MarkedUp isMark met text before) :
    ∃ crossedOut rest, text = crossedOut.map (fun item => (item, true)) ++ rest ∧
      MarkedUp isMark true rest after ∧ (met = false → crossedOut ≠ []) := by
  induction marks generalizing some_ with
  | done => exact absurd (append_eq_nil_iff.mp same.symm).1 notNil
  | stands met own rest =>
    obtain ⟨item, more, rfl⟩ := exists_cons_of_ne_nil notNil
    have head := (cons.inj same).1
    rw [head, set item mem_cons_self] at own
    exact absurd own.symm Bool.false_ne_true
  | gone item rest inductionHypothesis =>
    obtain ⟨crossedOut, left, same, marks, -⟩ := inductionHypothesis notNil set same
    exact ⟨item :: crossedOut, left, by rw [same]; rfl, marks, fun none_ => nomatch none_⟩
  | mark set' rest inductionHypothesis =>
    obtain ⟨item, more, rfl⟩ := exists_cons_of_ne_nil notNil
    have tail := (cons.inj same).2
    by_cases none_ : more = []
    · subst none_
      rw [tail] at rest
      exact ⟨[], _, rfl, rest, fun none_ => nomatch none_⟩
    · exact inductionHypothesis none_
        (fun other member => set other (mem_cons_of_mem item member)) tail
  | both item set' rest inductionHypothesis =>
    obtain ⟨put, more, rfl⟩ := exists_cons_of_ne_nil notNil
    have tail := (cons.inj same).2
    by_cases none_ : more = []
    · subst none_
      rw [tail] at rest
      exact ⟨[item], _, rfl, rest, fun _ => cons_ne_nil _ _⟩
    · obtain ⟨crossedOut, left, same, marks, -⟩ := inductionHypothesis none_
        (fun other member => set other (mem_cons_of_mem put member)) tail
      exact ⟨item :: crossedOut, left, by rw [same]; rfl, marks, fun _ => cons_ne_nil _ _⟩

end MarkedUp

theorem ApartFromMarks.drop {reads : Item → Sign} {isMark : Item → Bool} {pattern : List Sign}
    {text : List Item} (apart : ApartFromMarks reads isMark pattern text) (count : Nat) :
    ApartFromMarks reads isMark pattern (text.drop count) := by
  intro start before begins
  rw [length_drop] at before
  rw [drop_drop] at begins ⊢
  exact apart (count + start) (by omega) begins

section

variable {reads : Item → Sign} {isMark : Item → Bool} {pattern : List Sign} {mark : List Item}

/-- A text that begins with a pattern begins with items that read as it. -/
theorem map_take_of_begins {text : List Item}
    (begins : pattern.isPrefixOf (text.map reads) = true) :
    (text.take pattern.length).map reads = pattern := by
  obtain ⟨after, same⟩ := isPrefixOf_iff_prefix.mp begins
  rw [map_take, ← same, take_left]

/-- Items that stand, and the first of them are read. -/
theorem isPrefixOf_shownFirst_append {own : List Item} (rest : List (Item × Bool))
    (reads_ : own.map reads = pattern) :
    pattern.isPrefixOf (shownFirst reads (own.map (fun item => (item, false)) ++ rest)) = true := by
  refine isPrefixOf_iff_prefix.mpr ⟨shownFirst reads rest, ?_⟩
  unfold shownFirst
  rw [takeWhile_append_of_pos fun item member => ?_, map_append, List.map_map]
  · rw [← reads_]
    rfl
  · obtain ⟨_, _, rfl⟩ := List.mem_map.mp member
    rfl

/-- A pattern that begins what stands is read from items that stand. -/
theorem exists_standing_of_begins {text : List (Item × Bool)}
    (begins : pattern.isPrefixOf (shownFirst reads text) = true) :
    ∃ (own : List Item) (rest : List (Item × Bool)),
      text = own.map (fun item => (item, false)) ++ rest ∧
        pattern.isPrefixOf (own.map reads) = true := by
  refine ⟨(text.takeWhile fun item => !item.2).map Prod.fst,
    text.dropWhile fun item => !item.2, ?_, ?_⟩
  · have same : ((text.takeWhile fun item => !item.2).map Prod.fst).map
        (fun item => (item, false)) = text.takeWhile fun item => !item.2 := by
      rw [List.map_map]
      refine (map_congr_left fun item member => ?_).trans (List.map_id _)
      have off : item.2 = false := by
        have := mem_takeWhile_imp member
        rwa [Bool.not_eq_true'] at this
      exact Prod.ext rfl off.symm
    rw [same, takeWhile_append_dropWhile]
  · unfold shownFirst at begins
    rwa [List.map_map]

namespace MarkedUp

variable {met : Bool} {text : List (Item × Bool)} {marked : List Item}

theorem crossed_gone_append (some_ : pattern ≠ []) (crossedOut : List Item)
    (rest : List (Item × Bool)) :
    crossed reads pattern (crossedOut.map (fun item => (item, true)) ++ rest) =
      crossedOut.map (fun item => (item, true)) ++ crossed reads pattern rest := by
  induction crossedOut with
  | nil => rfl
  | cons item more inductionHypothesis =>
    rw [map_cons, cons_append, crossed_cons_gone reads some_, inductionHypothesis,
      cons_append]

/-- The pattern begins among marks. -/
theorem replaced_at_marks (some_ : pattern ≠ []) (set : ∀ item ∈ mark, isMark item = true)
    (marks : MarkedUp isMark met text marked)
    (begins : pattern.isPrefixOf (marked.map reads) = true)
    (among : ∀ item ∈ marked.take pattern.length, isMark item = true) (someMark : mark ≠ [])
    (next : ∀ rest, rest.length ≤ text.length →
      MarkedUp isMark true rest (marked.drop pattern.length) →
      MarkedUp isMark true (crossed reads pattern rest)
        (replaced reads pattern mark (marked.drop pattern.length))) :
    MarkedUp isMark met (crossed reads pattern text) (replaced reads pattern mark marked) := by
  have notNil : marked.take pattern.length ≠ [] := by
    intro none_
    have reads_ := map_take_of_begins begins
    rw [none_] at reads_
    exact some_ reads_.symm
  obtain ⟨crossedOut, rest, rfl, left, someGone⟩ :=
    exists_text_of_marks notNil among (take_append_drop _ _).symm marks
  have going := next rest (by rw [length_append]; omega) left
  rw [crossed_gone_append some_, replaced_of_begins reads mark some_ begins]
  cases met with
  | true => exact gone_append crossedOut (mark_append set going)
  | false => exact both_append (someGone rfl) someMark set going false

/-- The pattern begins at an item that stands. -/
theorem replaced_at_own (some_ : pattern ≠ []) (set : ∀ item ∈ mark, isMark item = true)
    (marks : MarkedUp isMark false text marked)
    (begins : pattern.isPrefixOf (marked.map reads) = true)
    (among : ∀ item ∈ marked.take pattern.length, isMark item = false) (someMark : mark ≠ [])
    (next : ∀ rest, rest.length ≤ text.length →
      MarkedUp isMark false rest (marked.drop pattern.length) →
      MarkedUp isMark false (crossed reads pattern rest)
        (replaced reads pattern mark (marked.drop pattern.length))) :
    MarkedUp isMark met (crossed reads pattern text) (replaced reads pattern mark marked) := by
  have reads_ := map_take_of_begins begins
  have notNil : marked.take pattern.length ≠ [] := by
    intro none_
    rw [none_] at reads_
    exact some_ reads_.symm
  rw [← take_append_drop pattern.length marked] at marks
  obtain ⟨rest, rfl, left⟩ := exists_text_of_own among marks
  have going := next rest (by rw [length_append]; omega) left
  have firstOf : ((marked.take pattern.length).map (fun item => (item, false)) ++ rest).take
      pattern.length = (marked.take pattern.length).map fun item => (item, false) :=
    take_left' (by rw [length_map, ← length_map reads, reads_])
  have restOf : ((marked.take pattern.length).map (fun item => (item, false)) ++ rest).drop
      pattern.length = rest :=
    drop_left' (by rw [length_map, ← length_map reads, reads_])
  rw [crossed_of_begins reads some_ (isPrefixOf_shownFirst_append rest reads_),
    replaced_of_begins reads mark some_ begins, firstOf, restOf, List.map_map]
  exact both_append notNil someMark set (met_of_not going) met

/-- A pattern that does not begin what is left does not begin what stands. -/
theorem not_begins_of_not (item : Item)
    (marks : MarkedUp isMark false ((item, false) :: text) marked)
    (begins : pattern.isPrefixOf (marked.map reads) = false) :
    pattern.isPrefixOf (shownFirst reads ((item, false) :: text)) = false := by
  by_contra begun
  obtain ⟨own, rest, same, reads_⟩ := exists_standing_of_begins (eq_true_of_ne_false begun)
  rw [same] at marks
  obtain ⟨-, after, rfl⟩ := exists_marked_of_standing marks
  refine absurd (List.isPrefixOf_iff_prefix.mpr ?_) (ne_true_of_eq_false begins)
  rw [map_append]
  exact (List.isPrefixOf_iff_prefix.mp reads_).trans (prefix_append _ _)

/-- Replacing a pattern that is found apart from marks leaves what crossing it out leaves. -/
theorem replaced (some_ : pattern ≠ []) (someMark : mark ≠ [])
    (set : ∀ item ∈ mark, isMark item = true) (marks : MarkedUp isMark met text marked)
    (apart : ApartFromMarks reads isMark pattern marked) :
    MarkedUp isMark met (crossed reads pattern text)
      (Text.replaced reads pattern mark marked) := by
  have short : 0 < pattern.length := length_pos_of_ne_nil some_
  induction size : text.length + marked.length using Nat.strong_induction_on
    generalizing met text marked with
  | _ size inductionHypothesis =>
    subst size
    have next : ∀ met rest, rest.length ≤ text.length → 0 < marked.length →
        MarkedUp isMark met rest (marked.drop pattern.length) →
        MarkedUp isMark met (crossed reads pattern rest)
          (Text.replaced reads pattern mark (marked.drop pattern.length)) := by
      intro met rest noLonger positive left
      refine inductionHypothesis _ ?_ left (apart.drop pattern.length) rfl
      rw [length_drop]
      omega
    cases marks with
    | done => exact .done met
    | gone item rest =>
      rw [crossed_cons_gone reads some_]
      exact .gone item (inductionHypothesis _ (by rw [length_cons]; omega) rest apart rfl)
    | @stands _ item text marked own rest =>
      have positive : 0 < (item :: marked).length := Nat.succ_pos _
      have whole : MarkedUp isMark false ((item, false) :: text) (item :: marked) :=
        .stands false own rest
      by_cases begins : pattern.isPrefixOf ((item :: marked).map reads) = true
      · refine replaced_at_own some_ set whole begins ?_ someMark
          fun rest noLonger left => next false rest noLonger positive left
        refine (apart 0 positive begins).resolve_left fun among => ?_
        have first : item ∈ ((item :: marked).drop 0).take pattern.length := by
          rw [drop_zero, ← Nat.sub_add_cancel short, take_succ_cons]
          exact mem_cons_self
        rw [among item first] at own
        exact Bool.false_ne_true own.symm
      · have begins := eq_false_of_ne_true begins
        rw [crossed_cons reads (not_begins_of_not item whole begins),
          replaced_cons reads mark begins]
        refine .stands met own (inductionHypothesis _ ?_ rest ?_ rfl)
        · rw [length_cons, length_cons]
          omega
        · exact apart.drop 1
    | @mark item _ marked put rest =>
      have positive : 0 < (item :: marked).length := Nat.succ_pos _
      by_cases begins : pattern.isPrefixOf ((item :: marked).map reads) = true
      · refine replaced_at_marks some_ set (.mark put rest) begins ?_ someMark
          fun rest noLonger left => next true rest noLonger positive left
        refine (apart 0 positive begins).resolve_right fun among => ?_
        have first : item ∈ ((item :: marked).drop 0).take pattern.length := by
          rw [drop_zero, ← Nat.sub_add_cancel short, take_succ_cons]
          exact mem_cons_self
        rw [among item first] at put
        exact Bool.false_ne_true put
      · rw [replaced_cons reads mark (eq_false_of_ne_true begins)]
        refine .mark put (inductionHypothesis _ ?_ rest (apart.drop 1) rfl)
        rw [length_cons]
        omega
    | @both item putItem text marked put rest =>
      have positive : 0 < (putItem :: marked).length := Nat.succ_pos _
      by_cases begins : pattern.isPrefixOf ((putItem :: marked).map reads) = true
      · refine replaced_at_marks some_ set (.both item put rest) begins ?_ someMark
          fun rest noLonger left => next true rest noLonger positive left
        refine (apart 0 positive begins).resolve_right fun among => ?_
        have first : putItem ∈ ((putItem :: marked).drop 0).take pattern.length := by
          rw [drop_zero, ← Nat.sub_add_cancel short, take_succ_cons]
          exact mem_cons_self
        rw [among putItem first] at put
        exact Bool.false_ne_true put
      · rw [replaced_cons reads mark (eq_false_of_ne_true begins),
          crossed_cons_gone reads some_]
        refine .both item put (inductionHypothesis _ ?_ rest (apart.drop 1) rfl)
        rw [length_cons, length_cons]
        omega

end MarkedUp

end

end Text
