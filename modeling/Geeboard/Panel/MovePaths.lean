/-
This file is about the paths of a rename, which the panel judges and the agent walks.

The panel takes a path without dots and counts, in one with dots, whether the way ever
leads out. The agent puts every path in its normal form. On the same text they come to
the same names, and to the same answer whether it leaves the server's folder: the steps
up that a normal form has left are those the panel has counted below nought.
-/

import Geeboard.Agent.Beneath
import Geeboard.Text.Separated

namespace Geeboard.Files

open List
open Text (IsPart dots enter joined leadsOut normalParts segments)
open Beneath (Trouble partsOf)

/-! ### The panel's reading -/

inductive MovePath where
  | ok (path : List Char)
  | refused (why : String) (escapes : Bool)
  deriving DecidableEq

def isControl (char : Char) : Bool := char.toNat ≤ 0x1f || char.toNat == 0x7f

/-- A backslash is a slash. -/
def slashed (text : List Char) : List Char :=
  text.map fun char => if char = '\\' then '/' else char

/-- The names between the separators of a path. -/
def namesIn (text : List Char) : List (List Char) :=
  (segments text).filter fun segment => 0 < segment.length

def isDots (segment : List Char) : Bool := segment == ['.'] || segment == ['.', '.']

/-- How deep a way is after one more segment, and whether it ever was above where it began. -/
def goDeeper (way : Int × Bool) (segment : List Char) : Int × Bool :=
  let depth :=
    if segment = ['.', '.'] then way.1 - 1
    else if segment ≠ ['.'] then way.1 + 1 else way.1
  (depth, way.2 || depth < 0)

def LEAVES : String := "That path leaves the server's folder."

def movePath (raw : List Char) : MovePath :=
  if raw.any isControl then .refused "A name cannot hold a control character." false
  else
    let segments := namesIn (slashed raw)
    if segments.any isDots then
      let escapes := (segments.foldl goDeeper (0, false)).2
      .refused
        (if escapes then LEAVES
          else "Name the folder in full: a path with . or .. in it is not followed.") escapes
    else .ok (joined segments)

/-! ### Names and normal forms -/

/-- What is between separators, and not nothing, is a name unless it is dots. -/
theorem isPart_of_mem {text segment : List Char} (member : segment ∈ namesIn text)
    (solid : isDots segment = false) : IsPart segment := by
  obtain ⟨among, long⟩ := mem_filter.mp member
  obtain ⟨dot, dots⟩ := Bool.or_eq_false_iff.mp solid
  exact ⟨ne_nil_of_length_pos (of_decide_eq_true long),
    Text.not_mem_segment text segment among, beq_eq_false_iff_ne.mp dot,
    beq_eq_false_iff_ne.mp dots⟩

/-- Separators in front add no names. -/
theorem namesIn_dropWhile (text : List Char) :
    namesIn (text.dropWhile fun char => char = '/') = namesIn text := by
  induction text with
  | nil => rfl
  | cons char text inductionHypothesis =>
    by_cases slash : char = '/'
    · subst slash
      have cut : segments ('/' :: text) = [] :: segments text := Text.segments_append [] text
      rw [dropWhile_cons_of_pos (by decide), inductionHypothesis, namesIn, namesIn, cut]
      rfl
    · rw [dropWhile_cons_of_neg (by rw [decide_eq_true_eq]; exact slash)]

/-- Walking over nothing goes nowhere. -/
theorem foldl_enter_names (pieces walked : List (List Char)) :
    pieces.foldl (enter true) walked =
      (pieces.filter fun segment => 0 < segment.length).foldl (enter true) walked := by
  induction pieces generalizing walked with
  | nil => rfl
  | cons segment pieces inductionHypothesis =>
    cases segment with
    | nil => exact inductionHypothesis walked
    | cons char segment =>
      have kept : ((char :: segment) :: pieces).filter (fun segment => 0 < segment.length) =
          (char :: segment) :: pieces.filter fun segment => 0 < segment.length :=
        filter_cons_of_pos (decide_eq_true (Nat.zero_lt_succ _))
      rw [kept, foldl_cons, foldl_cons, inductionHypothesis]

theorem normalParts_eq (text : List Char) :
    normalParts true text = ((namesIn text).foldl (enter true) []).reverse := by
  rw [normalParts, foldl_enter_names, namesIn]

/-- A path leads out when the first of its segments is two dots. -/
theorem leadsOut_iff (text : List Char) :
    leadsOut text = true ↔ (segments text).head? = some dots := by
  unfold leadsOut
  rw [Bool.or_eq_true, decide_eq_true_eq, isPrefixOf_iff_prefix]
  constructor
  · rintro (rfl | ⟨rest, rfl⟩)
    · decide
    · have cut : segments (dots ++ '/' :: rest) = _ := Text.segments_append dots rest
      rw [show ['.', '.', '/'] ++ rest = dots ++ '/' :: rest from rfl, cut]
      rfl
  · intro first
    by_cases slash : '/' ∈ text
    · obtain ⟨before, after, rfl, clean⟩ := eq_append_cons_of_mem slash
      have alone : segments before = [before] := splitOn_eq_singleton clean
      rw [Text.segments_append, alone] at first
      obtain rfl := Option.some.inj first
      exact .inr ⟨after, rfl⟩
    · have alone : segments text = [text] := splitOn_eq_singleton slash
      rw [alone] at first
      exact .inl (Option.some.inj first)

/-- What is left of a relative path in its normal form, between its separators: its parts, and
nothing behind a separator at the end. -/
theorem segments_normalize {text : List Char} (relative : text.head? ≠ some '/')
    (some_ : normalParts true text ≠ []) :
    ∃ behind, (∀ segment ∈ behind, segment = []) ∧
      segments (Text.normalize text) = normalParts true text ++ behind := by
  have clean : ∀ part ∈ normalParts true text, '/' ∉ part := by
    obtain ⟨ups, below, parts, proper⟩ := Text.normalParts_upward true text
    intro part member
    rw [parts] at member
    obtain up | down := mem_append.mp member
    · rw [eq_of_mem_replicate up]
      decide
    · exact (proper part down).2.1
  have cut : segments (joined (normalParts true text)) = normalParts true text :=
    splitOn_intercalate '/' clean some_
  have full : joined (normalParts true text) ≠ [] := by
    intro none_
    rw [none_] at cut
    obtain ⟨ups, below, parts, proper⟩ := Text.normalParts_upward true text
    have blank : [] ∈ normalParts true text := by
      rw [← cut]
      exact mem_singleton.mpr rfl
    rw [parts] at blank
    obtain up | down := mem_append.mp blank
    · exact absurd (eq_of_mem_replicate up) (by decide)
    · exact (proper [] down).1 rfl
  have begun : text ≠ [] := fun none_ => some_ (by rw [none_]; rfl)
  unfold Text.normalize
  rw [if_neg begun]
  dsimp only
  rw [decide_eq_false relative, Bool.not_false, if_neg full, if_neg Bool.false_ne_true]
  split
  · have ended : segments (joined (normalParts true text) ++ '/' :: []) = _ :=
      Text.segments_append (joined (normalParts true text)) []
    exact ⟨[[]], fun segment member => mem_singleton.mp member, by rw [ended, cut]; rfl⟩
  · refine ⟨[], fun segment member => absurd member not_mem_nil, ?_⟩
    rw [cut, append_nil]

theorem leadsOut_normalize {text : List Char} (relative : text.head? ≠ some '/') :
    leadsOut (Text.normalize text) = true ↔ (normalParts true text).head? = some dots := by
  by_cases none_ : normalParts true text = []
  · rw [none_]
    refine iff_of_false ?_ (by decide)
    unfold Text.normalize
    by_cases empty : text = []
    · rw [if_pos empty]
      decide
    · rw [if_neg empty]
      dsimp only
      rw [decide_eq_false relative, Bool.not_false, none_, if_pos (by decide),
        if_neg Bool.false_ne_true]
      split <;> decide
  · obtain ⟨behind, -, cut⟩ := segments_normalize relative none_
    rw [leadsOut_iff, cut, head?_append_of_ne_nil _ none_]

/-! ### A path of names -/

/-- What the agent walks along: the text with one kind of separator and none in front. -/
def fromRoot (requested : List Char) : List Char :=
  (slashed requested).dropWhile fun char => char = '/'

theorem head_fromRoot (requested : List Char) : (fromRoot requested).head? ≠ some '/' := by
  intro slash
  have kept := head?_dropWhile_not (fun char : Char => decide (char = '/')) (slashed requested)
  rw [show List.dropWhile _ _ = fromRoot requested from rfl, slash] at kept
  exact absurd kept (by decide)

theorem namesIn_fromRoot (requested : List Char) :
    namesIn (fromRoot requested) = namesIn (slashed requested) :=
  namesIn_dropWhile _

/-- A text with no names in it, and no separator in front, is empty. -/
theorem eq_nil_of_namesIn {text : List Char} (relative : text.head? ≠ some '/')
    (none_ : namesIn text = []) : text = [] := by
  cases text with
  | nil => rfl
  | cons char text =>
    exfalso
    have solid : char ≠ '/' := fun slash => relative (by rw [slash]; rfl)
    have cut : segments (char :: text) = (segments text).modifyHead (char :: ·) := by
      show List.splitOn _ _ = _
      rw [splitOn_cons_eq_if_modifyHead, if_neg (by rwa [beq_iff_eq])]
      rfl
    obtain ⟨first, others, pieces⟩ := exists_cons_of_ne_nil (splitOn_ne_nil '/' text)
    rw [namesIn, cut, show segments text = first :: others from pieces, modifyHead_cons,
      filter_eq_nil_iff] at none_
    exact none_ (char :: first) mem_cons_self (decide_eq_true (Nat.zero_lt_succ _))

/-- A text whose names are no dots is read as these names. -/
theorem partsOf_names {requested : List Char} (whole : '\x00' ∉ requested)
    (solid : (namesIn (slashed requested)).any isDots = false) :
    partsOf requested = .ok (namesIn (slashed requested)) := by
  have proper : ∀ part ∈ namesIn (slashed requested), IsPart part := by
    intro part member
    exact isPart_of_mem member (Bool.eq_false_iff.mpr fun found => by
      rw [List.any_eq_false] at solid
      exact solid part member found)
  have relative := head_fromRoot requested
  have parts : normalParts true (fromRoot requested) = namesIn (slashed requested) := by
    rw [normalParts_eq, namesIn_fromRoot, Text.foldl_enter_parts true _ [] proper,
      append_nil, reverse_reverse]
  unfold partsOf
  rw [if_neg whole]
  dsimp only
  rw [show (List.map _ requested).dropWhile _ = fromRoot requested from rfl]
  by_cases none_ : namesIn (slashed requested) = []
  · have empty := eq_nil_of_namesIn relative ((namesIn_fromRoot requested).trans none_)
    rw [empty, none_, if_pos rfl]
    rfl
  · have begun : fromRoot requested ≠ [] := fun empty => none_ (by
      rw [← namesIn_fromRoot, empty]; rfl)
    obtain ⟨behind, blank, cut⟩ := segments_normalize relative (by rwa [parts])
    rw [parts] at cut
    obtain ⟨first, others, pieces⟩ := exists_cons_of_ne_nil none_
    have begins : IsPart first := proper first (by rw [pieces]; exact mem_cons_self)
    have stays : ¬leadsOut (Text.normalize (fromRoot requested)) = true := by
      rw [leadsOut_iff, cut, pieces]
      exact fun up => begins.2.2.2 (Option.some.inj up)
    have further : Text.normalize (fromRoot requested) ≠ ['.'] := by
      intro dot
      rw [dot, pieces] at cut
      exact begins.2.2.1 (head_eq_of_cons_eq cut).symm
    rw [if_neg begun, if_neg stays, if_neg further, cut, filter_append,
      filter_eq_self.mpr fun part member => decide_eq_true (proper part member).1,
      filter_eq_nil_iff.mpr fun part member => by
        rw [decide_eq_true_eq, not_not]; exact blank part member,
      append_nil]

/-! ### A path with dots -/

/-- Where a walk stands for both: so many steps up, and so many names below them; the count is
the depth as long as the way never led out. -/
def Walked (way : Int × Bool) (walked : List (List Char)) : Prop :=
  ∃ below ups, walked = below ++ List.replicate ups dots ∧ (∀ part ∈ below, part ≠ dots) ∧
    (ups = 0 → way = ((below.length : Int), false)) ∧ (0 < ups → way.2 = true)

theorem walked_enter {way : Int × Bool} {walked : List (List Char)} {segment : List Char}
    (stands : Walked way walked) (name : segment ≠ []) :
    Walked (goDeeper way segment) (enter true walked segment) := by
  obtain ⟨below, ups, rfl, proper, level, above⟩ := stands
  have kept : 0 < ups → (goDeeper way segment).2 = true := by
    intro out
    show (_ || _) = true
    rw [above out, Bool.true_or]
  by_cases dot : segment = ['.']
  · refine ⟨below, ups, if_pos (.inr dot), proper, fun inside => ?_, kept⟩
    rw [level inside, dot]
    have still : ¬((below.length : Int) < 0) := by omega
    show ((below.length : Int), false || decide ((below.length : Int) < 0)) = _
    rw [decide_eq_false still]
    rfl
  by_cases up : segment = ['.', '.']
  · subst up
    cases below with
    | nil =>
      have entered : enter true ([] ++ List.replicate ups dots) dots =
          [] ++ List.replicate (ups + 1) dots := by
        cases ups <;> rfl
      refine ⟨[], ups + 1, entered, proper, fun inside => absurd inside (Nat.succ_ne_zero ups),
        fun _ => ?_⟩
      by_cases inside : ups = 0
      · rw [level inside]
        rfl
      · exact kept (Nat.pos_of_ne_zero inside)
    | cons last below =>
      have entered : enter true (last :: below ++ List.replicate ups dots) dots =
          below ++ List.replicate ups dots := if_neg (proper last mem_cons_self)
      refine ⟨below, ups, entered,
        fun part member => proper part (mem_cons_of_mem _ member), fun inside => ?_, kept⟩
      have still : ¬((below.length : Int) + 1 - 1 < 0) := by omega
      rw [level inside, length_cons]
      show ((below.length : Int) + 1 - 1, false || decide ((below.length : Int) + 1 - 1 < 0)) = _
      rw [decide_eq_false still, Int.add_sub_cancel]
      rfl
  · have entered : enter true (below ++ List.replicate ups dots) segment =
        segment :: (below ++ List.replicate ups dots) := by
      unfold enter
      rw [if_neg (not_or.mpr ⟨name, dot⟩), if_neg up]
    refine ⟨segment :: below, ups, entered, ?_, fun inside => ?_, kept⟩
    · exact forall_mem_cons.mpr ⟨up, proper⟩
    · rw [level inside]
      unfold goDeeper
      dsimp only
      rw [if_neg up, if_pos dot, length_cons, Int.natCast_succ]
      have still : ¬((below.length : Int) + 1 < 0) := by omega
      rw [decide_eq_false still]
      rfl

theorem walked_foldl {way : Int × Bool} {walked : List (List Char)} (names : List (List Char))
    (stands : Walked way walked) (solid : ∀ name ∈ names, name ≠ []) :
    Walked (names.foldl goDeeper way) (names.foldl (enter true) walked) := by
  induction names generalizing way walked with
  | nil => exact stands
  | cons name names inductionHypothesis =>
    obtain ⟨first, others⟩ := forall_mem_cons.mp solid
    exact inductionHypothesis (walked_enter stands first) others

/-- The way has led out for the panel exactly if the normal form begins with a step up. -/
theorem escaped_iff (text : List Char) :
    ((namesIn text).foldl goDeeper (0, false)).2 = true ↔
      (normalParts true text).head? = some dots := by
  obtain ⟨below, ups, walked, proper, level, above⟩ :=
    @walked_foldl (0, false) [] (namesIn text)
      ⟨[], 0, rfl, fun part member => absurd member not_mem_nil, fun _ => rfl,
        fun out => absurd out (Nat.lt_irrefl 0)⟩
      (fun name member =>
        ne_nil_of_length_pos (of_decide_eq_true (mem_filter.mp member).2))
  rw [normalParts_eq, walked, reverse_append, reverse_replicate]
  cases ups with
  | zero =>
    rw [level rfl]
    refine iff_of_false Bool.false_ne_true fun up => ?_
    exact proper dots (mem_reverse.mp (mem_of_head? up)) rfl
  | succ ups => exact iff_of_true (above (Nat.succ_pos ups)) rfl

theorem partsOf_escapes {requested : List Char} (whole : '\x00' ∉ requested) :
    partsOf requested = .error .escapes ↔
      ((namesIn (slashed requested)).foldl goDeeper (0, false)).2 = true := by
  have relative := head_fromRoot requested
  rw [← namesIn_fromRoot, escaped_iff, ← leadsOut_normalize relative]
  unfold partsOf
  rw [if_neg whole]
  dsimp only
  rw [show (List.map _ requested).dropWhile _ = fromRoot requested from rfl]
  by_cases empty : fromRoot requested = []
  · rw [empty]
    decide
  · rw [if_neg empty]
    split
    · next out => exact iff_of_true rfl out
    · next stays =>
      refine iff_of_false ?_ stays
      split <;> exact fun same => nomatch same

/-! ### The two readings -/

theorem slashed_clean {text : List Char} (clean : '\\' ∉ text) : slashed text = text :=
  (map_congr_left fun _ member => if_neg (ne_of_mem_of_not_mem member clean)).trans
    (List.map_id text)

/-- What is joined of the names in a text is of the text's own characters. -/
theorem mem_joined_namesIn {text : List Char} {char : Char}
    (member : char ∈ joined (namesIn text)) : char = '/' ∨ char ∈ text := by
  obtain between | ⟨name, among, inside⟩ := Text.mem_intercalate member
  · exact .inl (mem_singleton.mp between)
  · right
    rw [← show joined (segments text) = text from intercalate_splitOn '/']
    exact Text.mem_intercalate_of_mem (mem_of_mem_filter among) inside

/-- The names in joined names are these names. -/
theorem namesIn_joined {names : List (List Char)} (proper : ∀ name ∈ names, IsPart name) :
    namesIn (joined names) = names := by
  by_cases none_ : names = []
  · rw [none_]
    rfl
  · rw [namesIn, Text.segments_joined names proper none_]
    exact filter_eq_self.mpr fun name member =>
      decide_eq_true (length_pos_of_ne_nil (proper name member).1)

theorem not_mem_of_isControl {raw : List Char} (legible : raw.any isControl = false)
    {char : Char} (control : isControl char = true) : char ∉ raw := by
  rw [List.any_eq_false] at legible
  exact fun member => legible char member control

/-- The panel and the agent read a path to the same names, and find the same paths leading
out of the server's folder. -/
theorem movePath_partsOf (raw : List Char) :
    (∀ path, movePath raw = .ok path →
      partsOf path = .ok (namesIn path) ∧ partsOf raw = .ok (namesIn path)) ∧
    (∀ why escapes, raw.any isControl = false → movePath raw = .refused why escapes →
      (escapes = true ↔ partsOf raw = .error .escapes) ∧ (why = LEAVES ↔ escapes = true)) := by
  constructor
  · intro path accepted
    unfold movePath at accepted
    split at accepted
    · cases accepted
    · next legible =>
      rw [Bool.not_eq_true] at legible
      dsimp only at accepted
      split at accepted
      · cases accepted
      · next solid =>
        rw [Bool.not_eq_true] at solid
        obtain rfl := MovePath.ok.inj accepted
        have proper : ∀ name ∈ namesIn (slashed raw), IsPart name := by
          intro name member
          rw [List.any_eq_false] at solid
          exact isPart_of_mem member (Bool.eq_false_iff.mpr (solid name member))
        have whole := not_mem_of_isControl legible (show isControl '\x00' = true by decide)
        have kept : ∀ {char : Char}, char ≠ '/' → char ∉ slashed raw →
            char ∉ joined (namesIn (slashed raw)) :=
          fun other absent member => (mem_joined_namesIn member).elim other absent
        have back : '\\' ∉ slashed raw := by
          intro member
          obtain ⟨char, -, same⟩ := List.mem_map.mp member
          split at same
          · exact absurd same (by decide)
          · next other => exact other same
        have null : '\x00' ∉ slashed raw := by
          intro member
          obtain ⟨char, there, same⟩ := List.mem_map.mp member
          split at same
          · exact absurd same (by decide)
          · exact whole (same ▸ there)
        have again : namesIn (slashed (joined (namesIn (slashed raw)))) =
            namesIn (slashed raw) := by
          rw [slashed_clean (kept (by decide) back), namesIn_joined proper]
        have read := partsOf_names (kept (by decide) null) (by rwa [again])
        rw [again] at read
        rw [namesIn_joined proper]
        exact ⟨read, partsOf_names whole solid⟩
  · intro why escapes legible refused
    have whole := not_mem_of_isControl legible (show isControl '\x00' = true by decide)
    rw [partsOf_escapes whole]
    unfold movePath at refused
    rw [legible, if_neg Bool.false_ne_true] at refused
    dsimp only at refused
    split at refused
    · obtain ⟨rfl, rfl⟩ := MovePath.refused.inj refused
      refine ⟨Iff.rfl, ?_⟩
      split
      · next out => exact iff_of_true rfl out
      · next stays => exact iff_of_false (by decide) stays
    · cases refused

/-- A path with a doubled and a backward separator, and one that comes back after it led out. -/
theorem movePath_partsOf_slashes :
    partsOf "plugins/b.jar".toList = .ok ["plugins".toList, "b.jar".toList] ∧
      partsOf "/plugins\\\\b.jar".toList = .ok ["plugins".toList, "b.jar".toList] ∧
      partsOf "a/../../b".toList = .error .escapes :=
  have accepted := (movePath_partsOf "/plugins\\\\b.jar".toList).1 "plugins/b.jar".toList
    (by decide)
  ⟨accepted.1, accepted.2,
    (((movePath_partsOf "a/../../b".toList).2 LEAVES true (by decide) (by decide)).1).mp rfl⟩

end Geeboard.Files
