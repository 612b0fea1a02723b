/-
This file is about the places at which several patterns are replaced one after another.

Crossing out the places of a pattern in a text, and then those of the next among what
is not crossed out yet, picks places in this order: each that meets none picked before
it. So what replacing leaves of a text is what the picked places do not hold, as long
as no pattern is found over an edge of a mark. To say what is left, the items of a text
carry the positions they come from.
-/

import Geeboard.Text.Replacing

namespace Text

open List

variable {Item Sign : Type} [DecidableEq Sign]

/-! ### Places picked one after another -/

/-- A place in a text: where it begins, and where what comes after it begins. -/
structure Span where
  start : Nat
  stop : Nat
  deriving DecidableEq, Repr

namespace Span

/-- The place holds this position. -/
def Holds (span : Span) (position : Nat) : Prop := span.start ≤ position ∧ position < span.stop

instance (span : Span) (position : Nat) : Decidable (span.Holds position) :=
  inferInstanceAs (Decidable (_ ∧ _))

/-- Two places that hold a position between them. -/
def meets (first second : Span) : Bool :=
  decide (first.start < second.stop ∧ second.start < first.stop)

/-- Some place of a list holds this position. -/
def covers (spans : List Span) (position : Nat) : Bool :=
  spans.any fun span => decide (span.Holds position)

theorem covers_iff {spans : List Span} {position : Nat} :
    covers spans position = true ↔ ∃ span ∈ spans, span.Holds position := by
  unfold covers
  rw [List.any_eq_true]
  simp only [decide_eq_true_eq]

/-- The places picked from a list in its order, each that meets none picked before it. -/
def pickedFrom : List Span → List Span → List Span
  | picks, [] => picks
  | picks, span :: rest =>
    if picks.any (meets span) then pickedFrom picks rest else pickedFrom (span :: picks) rest

/-- The places picked from a list in its order. -/
def picked (spans : List Span) : List Span := pickedFrom [] spans

theorem pickedFrom_append (picks first second : List Span) :
    pickedFrom picks (first ++ second) = pickedFrom (pickedFrom picks first) second := by
  induction first generalizing picks with
  | nil => rfl
  | cons span rest inductionHypothesis =>
    rw [cons_append, pickedFrom, pickedFrom]
    split <;> exact inductionHypothesis _

theorem mem_pickedFrom_of_mem {picks spans : List Span} {span : Span} (member : span ∈ picks) :
    span ∈ pickedFrom picks spans := by
  induction spans generalizing picks with
  | nil => exact member
  | cons next rest inductionHypothesis =>
    unfold pickedFrom
    split
    · exact inductionHypothesis member
    · exact inductionHypothesis (mem_cons_of_mem next member)

theorem mem_or_mem_of_mem_pickedFrom {picks spans : List Span} {span : Span}
    (member : span ∈ pickedFrom picks spans) : span ∈ picks ∨ span ∈ spans := by
  induction spans generalizing picks with
  | nil => exact .inl member
  | cons next rest inductionHypothesis =>
    unfold pickedFrom at member
    split at member
    · exact (inductionHypothesis member).imp_right (mem_cons_of_mem next)
    · rcases inductionHypothesis member with before | later
      · rcases mem_cons.mp before with rfl | before
        · exact .inr mem_cons_self
        · exact .inl before
      · exact .inr (mem_cons_of_mem next later)

/-- What is picked is of the list. -/
theorem mem_of_mem_picked {spans : List Span} {span : Span} (member : span ∈ picked spans) :
    span ∈ spans :=
  (mem_or_mem_of_mem_pickedFrom member).resolve_left not_mem_nil

theorem covers_of_covers {picks : List Span} {position : Nat} (covered : covers picks position = true)
    (spans : List Span) : covers (pickedFrom picks spans) position = true := by
  obtain ⟨span, member, holds⟩ := covers_iff.mp covered
  exact covers_iff.mpr ⟨span, mem_pickedFrom_of_mem member, holds⟩

/-- Places that begin later cover nothing here. -/
theorem covers_pickedFrom_of_later {picks spans : List Span} {position : Nat}
    (later : ∀ span ∈ spans, position < span.start) :
    covers (pickedFrom picks spans) position = covers picks position := by
  rw [Bool.eq_iff_iff]
  refine ⟨fun covered => ?_, fun covered => covers_of_covers covered spans⟩
  obtain ⟨span, member, holds⟩ := covers_iff.mp covered
  rcases mem_or_mem_of_mem_pickedFrom member with before | among
  · exact covers_iff.mpr ⟨span, before, holds⟩
  · exact absurd holds.1 (Nat.not_le.mpr (later span among))

/-- A place meets a picked one when one of its positions is covered. -/
theorem any_meets_iff {picks : List Span} {span : Span} (some_ : span.start < span.stop)
    (each : ∀ pick ∈ picks, pick.start < pick.stop) :
    picks.any (meets span) = true ↔
      ∃ position, span.Holds position ∧ covers picks position = true := by
  rw [List.any_eq_true]
  constructor
  · rintro ⟨pick, member, meet⟩
    have both := of_decide_eq_true meet
    have wide := each pick member
    refine ⟨max span.start pick.start, ⟨Nat.le_max_left _ _, max_lt some_ both.2⟩,
      covers_iff.mpr ⟨pick, member, Nat.le_max_right _ _, max_lt both.1 wide⟩⟩
  · rintro ⟨position, holds, covered⟩
    obtain ⟨pick, member, held⟩ := covers_iff.mp covered
    exact ⟨pick, member, decide_eq_true
      ⟨holds.1.trans_lt held.2, held.1.trans_lt holds.2⟩⟩

end Span

/-- The places of a pattern in a text whose first item stands at this position. -/
def placesFrom (reads : Item → Sign) (pattern : List Sign) : Nat → List Item → List Span
  | _, [] => []
  | position, item :: rest =>
    if pattern.isPrefixOf ((item :: rest).map reads) then
      ⟨position, position + pattern.length⟩ :: placesFrom reads pattern (position + 1) rest
    else placesFrom reads pattern (position + 1) rest

/-- What the items carry besides what they read as does not matter. -/
theorem placesFrom_map (reads : Item → Sign) (pattern : List Sign) (position : Nat)
    (text : List Item) :
    placesFrom reads pattern position text = placesFrom id pattern position (text.map reads) := by
  induction text generalizing position with
  | nil => rfl
  | cons item rest inductionHypothesis =>
    rw [map_cons, placesFrom, placesFrom, List.map_id, inductionHypothesis, map_cons]

/-- The text with the items crossed out whose positions are covered. -/
def crossedOut (spans : List Span) : Nat → List Item → List (Item × Bool)
  | _, [] => []
  | position, item :: rest =>
    (item, Span.covers spans position) :: crossedOut spans (position + 1) rest

section

variable {reads : Item → Sign} {pattern : List Sign}

theorem placesFrom_spans {position : Nat} {text : List Item} {span : Span}
    (member : span ∈ placesFrom reads pattern position text) :
    position ≤ span.start ∧ span.stop = span.start + pattern.length := by
  induction text generalizing position with
  | nil => exact absurd member not_mem_nil
  | cons item rest inductionHypothesis =>
    unfold placesFrom at member
    split at member
    · rcases mem_cons.mp member with rfl | member
      · exact ⟨le_rfl, rfl⟩
      · exact (inductionHypothesis member).imp_left fun later => by omega
    · exact (inductionHypothesis member).imp_left fun later => by omega

/-- A place of a pattern is where the text goes on with it. -/
theorem mem_placesFrom_iff {position : Nat} {text : List Item} {span : Span} :
    span ∈ placesFrom reads pattern position text ↔
      ∃ index < text.length, span = ⟨position + index, position + index + pattern.length⟩ ∧
        pattern.isPrefixOf ((text.drop index).map reads) = true := by
  induction text generalizing position with
  | nil =>
    constructor
    · intro member
      exact absurd member not_mem_nil
    · rintro ⟨index, before, -⟩
      exact absurd before (Nat.not_lt_zero index)
  | cons item rest inductionHypothesis =>
    have later : (∃ index < rest.length,
        span = ⟨position + 1 + index, position + 1 + index + pattern.length⟩ ∧
          pattern.isPrefixOf ((rest.drop index).map reads) = true) ↔
        ∃ index < (item :: rest).length, 0 < index ∧
          span = ⟨position + index, position + index + pattern.length⟩ ∧
            pattern.isPrefixOf (((item :: rest).drop index).map reads) = true := by
      constructor
      · rintro ⟨index, before, same, begins⟩
        refine ⟨index + 1, Nat.succ_lt_succ before, Nat.succ_pos index, ?_, begins⟩
        have shifted : position + 1 + index = position + (index + 1) := by omega
        rw [same, shifted]
      · rintro ⟨index, before, positive, same, begins⟩
        obtain ⟨less, rfl⟩ := Nat.exists_eq_succ_of_ne_zero positive.ne'
        have shifted : position + less.succ = position + 1 + less := by omega
        refine ⟨less, Nat.lt_of_succ_lt_succ before, ?_, begins⟩
        rw [same, shifted]
    unfold placesFrom
    split
    case isTrue begins =>
      rw [mem_cons, inductionHypothesis, later]
      constructor
      · rintro (same | ⟨index, before, -, same, begun⟩)
        · exact ⟨0, Nat.succ_pos _, same, begins⟩
        · exact ⟨index, before, same, begun⟩
      · rintro ⟨index, before, same, begun⟩
        rcases Nat.eq_zero_or_pos index with rfl | positive
        · exact .inl same
        · exact .inr ⟨index, before, positive, same, begun⟩
    case isFalse begins =>
      rw [inductionHypothesis, later]
      constructor
      · rintro ⟨index, before, -, same, begun⟩
        exact ⟨index, before, same, begun⟩
      · rintro ⟨index, before, same, begun⟩
        rcases Nat.eq_zero_or_pos index with rfl | positive
        · exact absurd begun begins
        · exact ⟨index, before, positive, same, begun⟩

/-- A pattern begins what stands when it begins the text and none of its items is crossed out. -/
theorem isPrefixOf_shownFirst_crossedOut (spans : List Span) (position : Nat) (text : List Item) :
    pattern.isPrefixOf (shownFirst reads (crossedOut spans position text)) = true ↔
      pattern.isPrefixOf (text.map reads) = true ∧
        ∀ other, position ≤ other → other < position + pattern.length →
          Span.covers spans other = false := by
  induction pattern generalizing position text with
  | nil => exact ⟨fun _ => ⟨rfl, fun other least most => by
      exact absurd most (Nat.not_lt.mpr least)⟩, fun _ => rfl⟩
  | cons sign more inductionHypothesis =>
    cases text with
    | nil => exact ⟨fun begins => absurd begins Bool.false_ne_true,
        fun begins => absurd begins.1 Bool.false_ne_true⟩
    | cons item rest =>
      rw [crossedOut, shownFirst]
      by_cases covered : Span.covers spans position = true
      · rw [takeWhile_cons_of_neg (by rw [covered]; exact Bool.false_ne_true)]
        constructor
        · intro begins
          exact absurd begins Bool.false_ne_true
        · rintro ⟨-, free⟩
          have off := free position le_rfl (by rw [length_cons]; omega)
          exact absurd (off.symm.trans covered) Bool.false_ne_true
      · have off := eq_false_of_ne_true covered
        rw [takeWhile_cons_of_pos (by rw [off]; rfl), map_cons, map_cons,
          isPrefixOf_cons_cons, isPrefixOf_cons_cons, Bool.and_eq_true, Bool.and_eq_true]
        have rest_ := inductionHypothesis (position + 1) rest
        unfold shownFirst at rest_
        rw [rest_, and_assoc]
        refine and_congr_right fun _ => and_congr_right fun _ => ?_
        rw [length_cons]
        constructor
        · intro free other least most
          rcases Nat.eq_or_lt_of_le least with rfl | later
          · exact off
          · exact free other later (by omega)
        · intro free other least most
          exact free other (by omega) (by omega)

/-- Crossing a pattern out goes from left to right, and picks the places that meet none that was
picked before. -/
theorem crossedFrom_crossedOut (some_ : pattern ≠ []) {old picks : List Span} {skip position : Nat}
    {text : List Item} (each : ∀ pick ∈ picks, pick.start < pick.stop)
    (beyond : ∀ other, position + skip ≤ other →
      Span.covers picks other = Span.covers old other)
    (within : ∀ other, position ≤ other → other < position + skip →
      Span.covers picks other = true) :
    crossedFrom reads pattern skip (crossedOut old position text) =
      crossedOut (Span.pickedFrom picks (placesFrom reads pattern position text))
        position text := by
  have short : 0 < pattern.length := length_pos_of_ne_nil some_
  induction text generalizing skip position picks with
  | nil =>
    unfold crossedOut crossedFrom
    rfl
  | cons item rest inductionHypothesis =>
    have later : ∀ span ∈ placesFrom reads pattern (position + 1) rest, position < span.start :=
      fun span member => (placesFrom_spans member).1
    have here : ({ start := position, stop := position + pattern.length } : Span).start <
        position + pattern.length := Nat.lt_add_of_pos_right short
    cases skip with
    | succ skip =>
      have covered := within position le_rfl (by omega)
      have met : picks.any (Span.meets ⟨position, position + pattern.length⟩) = true :=
        (Span.any_meets_iff here each).mpr ⟨position, ⟨le_rfl, here⟩, covered⟩
      have rest_ := @inductionHypothesis picks skip (position + 1) each
        (fun other least => beyond other (by omega))
        fun other least most => within other (by omega) (by omega)
      have picks_ : Span.pickedFrom picks (placesFrom reads pattern position (item :: rest)) =
          Span.pickedFrom picks (placesFrom reads pattern (position + 1) rest) := by
        rw [placesFrom]
        split
        · rw [Span.pickedFrom, if_pos met]
        · rfl
      rw [crossedOut, crossedFrom, rest_, picks_, crossedOut,
        Span.covers_pickedFrom_of_later later, covered]
    | zero =>
      have same : ∀ other, position ≤ other → Span.covers picks other = Span.covers old other :=
        fun other least => beyond other least
      have begins_iff : pattern.isPrefixOf (shownFirst reads
          (crossedOut old position (item :: rest))) = true ↔ _ :=
        isPrefixOf_shownFirst_crossedOut old position (item :: rest)
      by_cases begun : pattern.isPrefixOf (shownFirst reads
          (crossedOut old position (item :: rest))) = true
      · obtain ⟨begins, free⟩ := begins_iff.mp begun
        have unmet : ¬ picks.any (Span.meets ⟨position, position + pattern.length⟩) = true := by
          intro met
          obtain ⟨other, holds, covered⟩ := (Span.any_meets_iff here each).mp met
          rw [same other holds.1, free other holds.1 holds.2] at covered
          exact Bool.false_ne_true covered
        have rest_ := @inductionHypothesis (⟨position, position + pattern.length⟩ :: picks)
          (pattern.length - 1) (position + 1) (forall_mem_cons.mpr ⟨here, each⟩)
          (fun other least => by
            have notHere : ¬ ({ start := position, stop := position + pattern.length } : Span).Holds
                other := fun holds => by
              have most := holds.2
              dsimp only at most
              omega
            rw [Span.covers, any_cons, decide_eq_false notHere, Bool.false_or]
            exact same other (by omega))
          (fun other least most => Span.covers_iff.mpr
            ⟨_, mem_cons_self, by dsimp only; omega, by dsimp only; omega⟩)
        have now : Span.covers (⟨position, position + pattern.length⟩ :: picks) position = true :=
          Span.covers_iff.mpr ⟨_, mem_cons_self, le_rfl, here⟩
        rw [placesFrom, if_pos begins, Span.pickedFrom, if_neg unmet, crossedOut, crossedOut,
          Span.covers_pickedFrom_of_later later, now, ← rest_]
        rw [crossedOut] at begun
        rw [crossedFrom, if_pos begun]
      · have picks_ : Span.pickedFrom picks (placesFrom reads pattern position (item :: rest)) =
            Span.pickedFrom picks (placesFrom reads pattern (position + 1) rest) := by
          rw [placesFrom]
          split
          case isTrue begins =>
            have met : picks.any (Span.meets ⟨position, position + pattern.length⟩) = true := by
              refine (Span.any_meets_iff here each).mpr ?_
              by_contra free
              refine begun (begins_iff.mpr ⟨begins, fun other least most => ?_⟩)
              rw [← same other least]
              exact eq_false_of_ne_true fun covered => free ⟨other, ⟨least, most⟩, covered⟩
            rw [Span.pickedFrom, if_pos met]
          case isFalse => rfl
        have rest_ := @inductionHypothesis picks 0 (position + 1) each
          (fun other least => same other (by omega))
          (fun other least most => absurd most (Nat.not_lt.mpr least))
        rw [picks_, crossedOut, crossedOut, Span.covers_pickedFrom_of_later later,
          same position le_rfl, ← rest_]
        rw [crossedOut] at begun
        rw [crossedFrom, if_neg begun]

/-- Crossing a pattern out picks its places in their order. -/
theorem crossed_crossedOut (some_ : pattern ≠ []) {picks : List Span}
    (each : ∀ pick ∈ picks, pick.start < pick.stop) (text : List Item) :
    crossed reads pattern (crossedOut picks 0 text) =
      crossedOut (Span.pickedFrom picks (placesFrom reads pattern 0 text)) 0 text :=
  crossedFrom_crossedOut some_ each (fun _ _ => rfl)
    fun other _ most => absurd most (Nat.not_lt_zero other)

theorem crossedOut_nil (position : Nat) (text : List Item) :
    crossedOut [] position text = text.map fun item => (item, false) := by
  induction text generalizing position with
  | nil => rfl
  | cons item rest inductionHypothesis =>
    rw [crossedOut, inductionHypothesis]
    rfl

end

/-! ### Several patterns in turn -/

/-- The text with a mark for each place of each pattern, one pattern after another. -/
def replacedInTurn (reads : Item → Sign) (mark : List Item) (patterns : List (List Sign))
    (text : List Item) : List Item :=
  patterns.foldl (fun now pattern => replaced reads pattern mark now) text

/-- The places of the patterns in a text: those of the first pattern, then those of the next. -/
def placesOf (reads : Item → Sign) (patterns : List (List Sign)) (text : List Item) : List Span :=
  patterns.flatMap fun pattern => placesFrom reads pattern 0 text

theorem placesOf_map (reads : Item → Sign) (patterns : List (List Sign)) (text : List Item) :
    placesOf reads patterns text = placesOf id patterns (text.map reads) := by
  unfold placesOf
  exact flatMap_congr fun pattern _ => placesFrom_map reads pattern 0 text

/-- Each pattern is found, in the text before its turn, not over an edge of a mark. -/
def ApartInTurn (reads : Item → Sign) (isMark : Item → Bool) (mark : List Item) :
    List (List Sign) → List Item → Prop
  | [], _ => True
  | pattern :: rest, text =>
    ApartFromMarks reads isMark pattern text ∧
      ApartInTurn reads isMark mark rest (replaced reads pattern mark text)

/-- The patterns in turn, decided one after another. -/
def decideApartInTurn (reads : Item → Sign) (isMark : Item → Bool) (mark : List Item) :
    (patterns : List (List Sign)) → (text : List Item) →
      Decidable (ApartInTurn reads isMark mark patterns text)
  | [], _ => isTrue trivial
  | _ :: rest, _ =>
    have := decideApartInTurn reads isMark mark rest
    inferInstanceAs (Decidable (_ ∧ _))

instance (reads : Item → Sign) (isMark : Item → Bool) (mark : List Item)
    (patterns : List (List Sign)) (text : List Item) :
    Decidable (ApartInTurn reads isMark mark patterns text) :=
  decideApartInTurn reads isMark mark patterns text

section

variable {reads : Item → Sign} {isMark : Item → Bool} {mark : List Item}

theorem MarkedUp.replacedInTurn {patterns : List (List Sign)}
    (some_ : ∀ pattern ∈ patterns, pattern ≠ []) (someMark : mark ≠ []) (set : ∀ item ∈ mark, isMark item = true) {picks : List Span}
    (each : ∀ pick ∈ picks, pick.start < pick.stop) {text marked : List Item}
    (marks : MarkedUp isMark false (crossedOut picks 0 text) marked)
    (apart : ApartInTurn reads isMark mark patterns marked) :
    MarkedUp isMark false
      (crossedOut (Span.pickedFrom picks (placesOf reads patterns text)) 0 text)
      (Text.replacedInTurn reads mark patterns marked) := by
  induction patterns generalizing picks marked with
  | nil => exact marks
  | cons pattern rest inductionHypothesis =>
    obtain ⟨first, later⟩ := apart
    have notNil := some_ pattern mem_cons_self
    have turn := marks.replaced notNil someMark set first
    rw [crossed_crossedOut notNil each] at turn
    unfold placesOf
    rw [flatMap_cons, Span.pickedFrom_append]
    refine inductionHypothesis (fun other member => some_ other (mem_cons_of_mem _ member))
      (fun pick member => ?_) turn later
    rcases Span.mem_or_mem_of_mem_pickedFrom member with before | among
    · exact each pick before
    · rw [(placesFrom_spans among).2]
      exact Nat.lt_add_of_pos_right (length_pos_of_ne_nil notNil)

/-- When no pattern is found over an edge of a mark, what is left is what the picked places do not
hold. -/
theorem filter_replacedInTurn {patterns : List (List Sign)}
    (some_ : ∀ pattern ∈ patterns, pattern ≠ []) (someMark : mark ≠ [])
    (set : ∀ item ∈ mark, isMark item = true) {text : List Item}
    (own : ∀ item ∈ text, isMark item = false)
    (apart : ApartInTurn reads isMark mark patterns text) :
    (replacedInTurn reads mark patterns text).filter (fun item => !isMark item) =
      standing (crossedOut (Span.picked (placesOf reads patterns text)) 0 text) := by
  have plain : MarkedUp isMark false (crossedOut [] 0 text) text := by
    rw [crossedOut_nil]
    exact MarkedUp.of_own own
  exact (plain.replacedInTurn some_ someMark set
    (fun pick member => absurd member not_mem_nil) apart).standing_eq

end

/-! ### Where the items of a text come from -/

/-- A text whose signs carry their positions. -/
def tracedFrom : Nat → List Sign → List (Sign × Option Nat)
  | _, [] => []
  | position, sign :: rest => (sign, some position) :: tracedFrom (position + 1) rest

/-- A mark, whose signs have no position. -/
def untraced (mark : List Sign) : List (Sign × Option Nat) := mark.map fun sign => (sign, none)

/-- The positions a text carries, in order. -/
def origins (text : List (Sign × Option Nat)) : List Nat := text.filterMap Prod.snd

section

variable {mark : List Sign}

omit [DecidableEq Sign] in
theorem map_fst_tracedFrom (position : Nat) (text : List Sign) :
    (tracedFrom position text).map Prod.fst = text := by
  induction text generalizing position with
  | nil => rfl
  | cons sign rest inductionHypothesis =>
    rw [tracedFrom, map_cons, inductionHypothesis]

/-- What the replacing gives is what it gives with the positions left out. -/
theorem map_replacedInTurn (patterns : List (List Sign)) (text : List (Sign × Option Nat)) :
    (replacedInTurn Prod.fst (untraced mark) patterns text).map Prod.fst =
      patterns.foldl (fun now pattern => mark.intercalate (splitBy pattern now))
        (text.map Prod.fst) := by
  have bare : (untraced mark).map Prod.fst = mark := by
    unfold untraced
    rw [List.map_map]
    exact List.map_id mark
  induction patterns generalizing text with
  | nil => rfl
  | cons pattern rest inductionHypothesis =>
    rw [foldl_cons, intercalate_splitBy, ← bare, ← map_replaced, bare]
    exact inductionHypothesis _

omit [DecidableEq Sign] in
/-- The positions that stand. -/
theorem origins_standing (spans : List Span) (position : Nat) (text : List Sign) :
    origins (standing (crossedOut spans position (tracedFrom position text))) =
      (List.range' position text.length).filter fun other => !Span.covers spans other := by
  induction text generalizing position with
  | nil => rfl
  | cons sign rest inductionHypothesis =>
    rw [tracedFrom, crossedOut, length_cons, range'_succ]
    unfold standing origins at inductionHypothesis ⊢
    by_cases covered : Span.covers spans position = true
    · rw [filter_cons_of_neg (by rw [covered]; exact Bool.false_ne_true),
        filter_cons_of_neg (by rw [covered]; exact Bool.false_ne_true), inductionHypothesis]
    · have off := eq_false_of_ne_true covered
      rw [filter_cons_of_pos (by rw [off]; rfl), filter_cons_of_pos (by rw [off]; rfl),
        map_cons]
      exact congrArg (List.cons position) (inductionHypothesis (position + 1))

omit [DecidableEq Sign] in
/-- Only what carries a position counts. -/
theorem origins_filter (text : List (Sign × Option Nat)) :
    origins (text.filter fun item => !item.2.isNone) = origins text := by
  unfold origins
  rw [filterMap_filter]
  refine filterMap_congr fun item _ => ?_
  obtain ⟨sign, position⟩ := item
  cases position <;> rfl

/-- The positions left by replacing several patterns in turn. -/
theorem origins_replacedInTurn {patterns : List (List Sign)}
    (some_ : ∀ pattern ∈ patterns, pattern ≠ []) (someMark : mark ≠ []) {text : List Sign}
    (apart : ApartInTurn Prod.fst (fun item => item.2.isNone) (untraced mark) patterns
      (tracedFrom 0 text)) :
    origins (replacedInTurn Prod.fst (untraced mark) patterns (tracedFrom 0 text)) =
      (List.range' 0 text.length).filter fun position =>
        !Span.covers (Span.picked (placesOf Prod.fst patterns (tracedFrom 0 text))) position := by
  have own : ∀ (position : Nat) (text : List Sign), ∀ item ∈ tracedFrom position text,
      item.2.isNone = false := by
    intro position text
    induction text generalizing position with
    | nil => exact fun item member => absurd member not_mem_nil
    | cons sign rest inductionHypothesis =>
      exact forall_mem_cons.mpr ⟨rfl, inductionHypothesis (position + 1)⟩
  have set : ∀ item ∈ untraced mark, item.2.isNone = true := by
    intro item member
    obtain ⟨sign, _, rfl⟩ := List.mem_map.mp member
    rfl
  have notNil : untraced mark ≠ [] := fun none_ => someMark (map_eq_nil_iff.mp none_)
  rw [← origins_filter, filter_replacedInTurn some_ notNil set (own 0 text) apart,
    origins_standing]

end

end Text
