/-
This file is about editing the lines of a text.

Lines are read from the first to the last: a line may begin a place, and in a place
a line may assign a key. A plan says which keys are wanted, what becomes of a line
that assigns one, and which line is added for one that no line assigns. An edit goes
through the lines in their order, each with what the plan puts for it and still in
the place it was in, and adds lines among them: for a key in the place the key
belongs to, no key twice, or to begin a place that is not there.

What an edited text is read as follows from the plan alone: when each line that is
put or added gives a value or nothing, so does the whole, and one line is enough.
-/

import Mathlib.Data.List.Induction
import Mathlib.Data.List.Nodup
import Geeboard.Text.Scans

namespace Text

open List Option

/-- What a text is to be edited to: how its lines are read, what is put for a line that assigns a
wanted key, what is added for a wanted key, and which lines begin a place. -/
structure Plan (Place Key Item : Type) where
  start : Place
  opens : Item → Option Place
  assigns : Place → Item → Option Key
  home : Key → Place
  changed : Key → Item → Option (List Item)
  added : Key → Option Item
  opening : List Item → Place → List Item

namespace Plan

variable {Place Key Item Value : Type} (plan : Plan Place Key Item)

/-- The place after a line. -/
def next (place : Place) (line : Item) : Place := (plan.opens line).getD place

/-- The place after some lines. -/
def walk (lines : List Item) : Place := lines.foldl plan.next plan.start

/-- What is put for a line: the line, unless it assigns a wanted key. -/
def put (place : Place) (line : Item) : List Item :=
  ((plan.assigns place line).bind fun key => plan.changed key line).getD [line]

/-- One of the lines assigns the key. -/
def Assigned (lines : List Item) (key : Key) : Prop :=
  ∃ front line back, lines = front ++ line :: back ∧ plan.assigns (plan.walk front) line = some key

/-- An edit of lines: the lines before, the lines after, the keys that lines were added for and the
places that were begun. -/
inductive Edit : List Item → List Item → List Key → List Place → Prop
  | start : Edit [] [] [] []
  | kept {before after : List Item} {keys : List Key} {places : List Place}
      (edit : Edit before after keys places) (line : Item)
      (there : plan.walk after = plan.walk before) :
      Edit (before ++ [line]) (after ++ plan.put (plan.walk before) line) keys places
  | added {before after : List Item} {keys : List Key} {places : List Place}
      (edit : Edit before after keys places) {key : Key} {line : Item}
      (made : plan.added key = some line) (home : plan.walk after = plan.home key)
      (new : key ∉ keys) : Edit before (after ++ [line]) (keys ++ [key]) places
  | opened {before after : List Item} {keys : List Key} {places : List Place}
      (edit : Edit before after keys places) {place : Place} (new : place ∉ places) :
      Edit before (after ++ plan.opening after place) keys (places ++ [place])

/-- An edit that does what the plan asks for and no more: each wanted key has a line, one is added
for a key that lines assign only where its place is begun more than once, and only places that are
not there are begun, for the sake of a wanted key. -/
structure Fulfilled [BEq Place] (before after : List Item) (keys : List Key)
    (places : List Place) : Prop where
  edit : plan.Edit before after keys places
  complete : ∀ key, (plan.added key).isSome = true → plan.Assigned before key ∨ key ∈ keys
  sparing : ∀ key ∈ keys, plan.Assigned before key →
    2 ≤ (before.filterMap plan.opens).count (plan.home key)
  absent : ∀ place ∈ places, place ≠ plan.start ∧ place ∉ before.filterMap plan.opens ∧
    ∃ key ∈ keys, plan.home key = place

section

variable {plan} {before after more : List Item} {keys : List Key} {places : List Place}

theorem walk_append (lines more : List Item) :
    plan.walk (lines ++ more) = more.foldl plan.next (plan.walk lines) := foldl_append

theorem put_of_changed {place : Place} {line : Item} {key : Key} {lines : List Item}
    (assigned : plan.assigns place line = some key) (changed : plan.changed key line = some lines) :
    plan.put place line = lines := by
  unfold put
  rw [assigned, bind_some, changed, getD_some]

theorem put_of_unchanged {place : Place} {line : Item}
    (unchanged : ∀ key, plan.assigns place line = some key → plan.changed key line = none) :
    plan.put place line = [line] := by
  unfold put
  cases assigned : plan.assigns place line with
  | none => rfl
  | some key => rw [bind_some, unchanged key assigned, getD_none]

/-- Lines with one more are assigned what they were, and what the last one assigns. -/
theorem assigned_concat {line : Item} {key : Key} : plan.Assigned (before ++ [line]) key ↔
    plan.Assigned before key ∨ plan.assigns (plan.walk before) line = some key := by
  constructor
  · rintro ⟨front, one, back, parts, assigned⟩
    obtain rfl | ⟨rest, last, rfl⟩ := eq_nil_or_concat' back
    · obtain ⟨rfl, same⟩ := append_inj' parts rfl
      obtain ⟨rfl, -⟩ := cons.inj same
      exact Or.inr assigned
    · rw [← cons_append, ← append_assoc] at parts
      obtain ⟨rfl, -⟩ := append_inj' parts rfl
      exact Or.inl ⟨front, one, rest, rfl, assigned⟩
  · rintro (⟨front, one, back, rfl, assigned⟩ | assigned)
    · exact ⟨front, one, back ++ [line], by rw [append_assoc, cons_append], assigned⟩
    · exact ⟨before, line, [], rfl, assigned⟩

theorem not_assigned_nil (key : Key) : ¬ plan.Assigned [] key := by
  rintro ⟨front, line, back, parts, -⟩
  exact append_ne_nil_of_right_ne_nil front (cons_ne_nil line back) parts.symm

theorem Edit.wanted (edit : plan.Edit before after keys places) :
    ∀ key ∈ keys, (plan.added key).isSome = true := by
  induction edit with
  | start => exact fun _ inside => absurd inside not_mem_nil
  | kept _ _ _ inductionHypothesis => exact inductionHypothesis
  | @added _ _ _ _ _ own line made _ _ inductionHypothesis =>
    intro key inside
    obtain there | last := mem_append.mp inside
    · exact inductionHypothesis key there
    · rw [mem_singleton.mp last, made]
      rfl
  | opened _ _ inductionHypothesis => exact inductionHypothesis

/-- Nothing is lost as long as something is put for every line. -/
theorem Edit.ne_nil (edit : plan.Edit before after keys places)
    (puts : ∀ place line, plan.put place line ≠ []) (some_ : before ≠ []) : after ≠ [] := by
  induction edit with
  | start => exact absurd rfl some_
  | kept => exact append_ne_nil_of_right_ne_nil _ (puts _ _)
  | added => exact append_ne_nil_of_right_ne_nil _ (cons_ne_nil _ _)
  | opened _ _ inductionHypothesis =>
    exact append_ne_nil_of_left_ne_nil (inductionHypothesis some_) _

/-! ### Making an edit -/

/-- Lines none of which begins a place leave the place they are read in. -/
theorem foldl_next_quiet {lines : List Item} (place : Place)
    (quiet : ∀ line ∈ lines, plan.opens line = none) : lines.foldl plan.next place = place := by
  induction lines with
  | nil => rfl
  | cons line lines inductionHypothesis =>
    obtain ⟨here, there⟩ := forall_mem_cons.mp quiet
    have stays : plan.next place line = place := by
      unfold next
      rw [here]
      rfl
    rw [foldl_cons, stays, inductionHypothesis there]

/-- Lines for keys of the place that was reached, added one behind the other. -/
theorem Edit.add {items : List (Key × Item)} (edit : plan.Edit before after keys places)
    (made : ∀ item ∈ items, plan.added item.1 = some item.2)
    (quiet : ∀ item ∈ items, plan.opens item.2 = none)
    (home : ∀ item ∈ items, plan.home item.1 = plan.walk after)
    (distinct : (items.map Prod.fst).Nodup) (new : ∀ item ∈ items, item.1 ∉ keys) :
    plan.Edit before (after ++ items.map Prod.snd) (keys ++ items.map Prod.fst) places := by
  induction items using List.reverseRecOn with
  | nil =>
    rw [map_nil, map_nil, append_nil, append_nil]
    exact edit
  | append_singleton items item inductionHypothesis =>
    have earlier : ∀ one ∈ items, one ∈ items ++ [item] := fun one => mem_append_left _
    have last : item ∈ items ++ [item] := mem_append_right _ mem_cons_self
    rw [map_append] at distinct
    obtain ⟨front, -, apart⟩ := nodup_append.mp distinct
    have done := inductionHypothesis (fun one inside => made one (earlier one inside))
      (fun one inside => quiet one (earlier one inside))
      (fun one inside => home one (earlier one inside)) front
      fun one inside => new one (earlier one inside)
    rw [map_append, map_append, ← append_assoc, ← append_assoc]
    refine done.added (made item last) ?_ fun inside => ?_
    · rw [walk_append, foldl_next_quiet, home item last]
      intro line inside
      obtain ⟨one, there, rfl⟩ := List.mem_map.mp inside
      exact quiet one (earlier one there)
    · obtain there | there := mem_append.mp inside
      · exact new item last there
      · exact apart _ there _ (mem_singleton.mpr rfl) rfl

/-- Lines of a format without places, each with what is put for it. -/
theorem Edit.of_lines (lines : List Item) (flat : ∀ line, plan.opens line = none) :
    plan.Edit lines (lines.flatMap (plan.put plan.start)) [] [] := by
  induction lines using List.reverseRecOn with
  | nil => exact .start
  | append_singleton lines line inductionHypothesis =>
    have stays : ∀ lines : List Item, plan.walk lines = plan.start := fun lines =>
      foldl_next_quiet plan.start fun one _ => flat one
    have kept := inductionHypothesis.kept line ((stays _).trans (stays _).symm)
    rw [stays] at kept
    rw [flatMap_append, flatMap_singleton]
    exact kept

/-- In a format without places, a key is assigned when some line assigns it. -/
theorem assigned_flat {lines : List Item} {key : Key} (flat : ∀ line, plan.opens line = none) :
    plan.Assigned lines key ↔ ∃ line ∈ lines, plan.assigns plan.start line = some key := by
  have stays : ∀ lines : List Item, plan.walk lines = plan.start := fun lines =>
    foldl_next_quiet plan.start fun one _ => flat one
  constructor
  · rintro ⟨front, line, back, rfl, assigned⟩
    exact ⟨line, mem_append_right _ mem_cons_self, stays front ▸ assigned⟩
  · rintro ⟨line, inside, assigned⟩
    obtain ⟨front, back, rfl⟩ := append_of_mem inside
    exact ⟨front, line, back, rfl, (stays front).symm ▸ assigned⟩

/-- In a format without places, what is put for each line and the lines added for the wanted keys
that no line assigns are all that was asked for. -/
theorem Fulfilled.of_lines [BEq Place] {lines : List Item} {items : List (Key × Item)}
    (flat : ∀ line, plan.opens line = none) (one : ∀ key, plan.home key = plan.start)
    (distinct : (items.map Prod.fst).Nodup)
    (made : ∀ key line, (key, line) ∈ items ↔
      plan.added key = some line ∧ ¬ plan.Assigned lines key) :
    plan.Fulfilled lines (lines.flatMap (plan.put plan.start) ++ items.map Prod.snd)
      (items.map Prod.fst) [] := by
  have stays : ∀ lines : List Item, plan.walk lines = plan.start := fun lines =>
    foldl_next_quiet plan.start fun one _ => flat one
  have edit := (Edit.of_lines lines flat).add (fun item inside => ((made _ _).mp inside).1)
    (fun item _ => flat item.2) (fun item _ => (one item.1).trans (stays _).symm) distinct
    fun item _ => not_mem_nil
  refine ⟨edit, fun key some_ => ?_, fun key inside assigned => ?_, fun place inside => ?_⟩
  · by_cases assigned : plan.Assigned lines key
    · exact Or.inl assigned
    · obtain ⟨line, added⟩ := isSome_iff_exists.mp some_
      exact Or.inr (List.mem_map.mpr ⟨(key, line), (made key line).mpr ⟨added, assigned⟩, rfl⟩)
  · obtain ⟨item, there, rfl⟩ := List.mem_map.mp inside
    exact absurd assigned ((made _ _).mp there).2
  · exact absurd inside not_mem_nil

/-! ### Reading what was edited -/

/-- What holds of lines put together holds of an edited text when it holds of what is put for its
lines, of the lines added and of those that begin a place. -/
theorem Edit.along {holds : Place → List Item → Prop} (edit : plan.Edit before after keys places)
    (nothing : holds plan.start [])
    (append : ∀ lines more, holds plan.start lines → holds (plan.walk lines) more →
      holds plan.start (lines ++ more))
    (puts : ∀ place, ∀ line ∈ before, holds place (plan.put place line))
    (adds : ∀ key line, plan.added key = some line → holds (plan.home key) [line])
    (opens : ∀ place lines, ∀ begun ∈ places, holds place (plan.opening lines begun)) :
    holds plan.start after := by
  induction edit with
  | start => exact nothing
  | kept _ line there inductionHypothesis =>
    refine append _ _ (inductionHypothesis (fun place one inside => ?_) opens) ?_
    · exact puts place one (mem_append_left _ inside)
    · rw [there]
      exact puts _ line (mem_append_right _ mem_cons_self)
  | added _ made home _ inductionHypothesis =>
    refine append _ _ (inductionHypothesis puts opens) ?_
    rw [home]
    exact adds _ _ made
  | opened _ _ inductionHypothesis =>
    refine append _ _ (inductionHypothesis puts fun place lines begun inside => ?_) ?_
    · exact opens place lines begun (mem_append_left _ inside)
    · exact opens _ _ _ (mem_append_right _ mem_cons_self)

/-- What holds of every line put, added or put to begin a place holds of every line of an edited
text. -/
theorem Edit.each {holds : Item → Prop} (edit : plan.Edit before after keys places)
    (puts : ∀ place, ∀ line ∈ before, ∀ one ∈ plan.put place line, holds one)
    (adds : ∀ key line, plan.added key = some line → holds line)
    (opens : ∀ lines, ∀ begun ∈ places, ∀ one ∈ plan.opening lines begun, holds one) :
    ∀ line ∈ after, holds line := by
  refine @Edit.along _ _ _ plan before after keys places (fun _ lines => ∀ line ∈ lines, holds line)
    edit ?_ ?_ puts (fun key line made => ?_) fun _ => opens
  · exact fun _ inside => absurd inside not_mem_nil
  · exact fun lines more here there => forall_mem_append.mpr ⟨here, there⟩
  · exact forall_mem_singleton.mpr (adds key line made)

/-- What is put for a line is read as the line is, and nothing is read of what is added. -/
structure Quiet (plan : Plan Place Key Item) (before : List Item) (places : List Place)
    (reads : Place → Item → Option Value) : Prop where
  puts : ∀ place, ∀ line ∈ before, ReadAlike plan.next reads place (plan.put place line) [line]
  adds : ∀ key line, plan.added key = some line → reads (plan.home key) line = none
  opens : ∀ place lines, ∀ begun ∈ places,
    Silent plan.next reads place (plan.opening lines begun)

/-- A text edited so is read as it was before. -/
theorem Edit.lastGiven_eq {reads : Place → Item → Option Value}
    (edit : plan.Edit before after keys places) (quiet : plan.Quiet before places reads) :
    lastGiven plan.next reads plan.start after = lastGiven plan.next reads plan.start before := by
  induction edit with
  | start => rfl
  | @kept before after _ _ _ line there inductionHypothesis =>
    have earlier := inductionHypothesis
      ⟨fun place one inside => quiet.puts place one (mem_append_left _ inside), quiet.adds,
        quiet.opens⟩
    have alike := quiet.puts (plan.walk before) line (mem_append_right _ mem_cons_self)
    unfold lastGiven at earlier ⊢
    rw [foldl_look_append, foldl_look_append, earlier]
    show ((plan.put _ line).foldl _ (plan.walk after, _)).2 = _
    rw [there]
    exact congrArg Prod.snd (alike _)
  | added _ made home _ inductionHypothesis =>
    rw [← inductionHypothesis quiet]
    refine lastGiven_append_silent (Silent.cons ?_ (.nil _))
    show reads (plan.walk _) _ = none
    rw [home]
    exact quiet.adds _ _ made
  | opened _ _ inductionHypothesis =>
    rw [← inductionHypothesis ⟨quiet.puts, quiet.adds, fun place lines begun inside =>
      quiet.opens place lines begun (mem_append_left _ inside)⟩]
    exact lastGiven_append_silent (quiet.opens _ _ _ (mem_append_right _ mem_cons_self))

/-- What is put for the lines, added or put to begin a place gives this value or nothing, and what
is there for the key gives it. -/
structure Shows (plan : Plan Place Key Item) (before : List Item) (places : List Place)
    (reads : Place → Item → Option Value) (key : Key) (value : Value) : Prop where
  puts : ∀ place, ∀ line ∈ before, Tends plan.next reads value place (plan.put place line)
  adds : ∀ other line, plan.added other = some line →
    Tends plan.next reads value (plan.home other) [line]
  opens : ∀ place lines, ∀ begun ∈ places,
    Tends plan.next reads value place (plan.opening lines begun)
  own : ∀ place, ∀ line ∈ before, plan.assigns place line = some key →
    Gives plan.next reads value place (plan.put place line)
  ownAdded : ∀ line, plan.added key = some line →
    Gives plan.next reads value (plan.home key) [line]

variable {reads : Place → Item → Option Value} {value : Value} {key : Key}

theorem Shows.front {line : Item}
    (shows_ : plan.Shows (before ++ [line]) places reads key value) :
    plan.Shows before places reads key value where
  puts place one inside := shows_.puts place one (mem_append_left _ inside)
  adds := shows_.adds
  opens := shows_.opens
  own place one inside := shows_.own place one (mem_append_left _ inside)
  ownAdded := shows_.ownAdded

theorem Shows.earlier {place : Place}
    (shows_ : plan.Shows before (places ++ [place]) reads key value) :
    plan.Shows before places reads key value where
  puts := shows_.puts
  adds := shows_.adds
  opens at_ lines begun inside := shows_.opens at_ lines begun (mem_append_left _ inside)
  own := shows_.own
  ownAdded := shows_.ownAdded

/-- An edited text gives the value shown for a key as soon as a line assigned the key or was added
for it. -/
theorem Edit.gives (edit : plan.Edit before after keys places)
    (shows_ : plan.Shows before places reads key value) (some_ : plan.Assigned before key ∨ key ∈ keys) :
    Gives plan.next reads value plan.start after := by
  induction edit with
  | start =>
    obtain assigned | inside := some_
    · exact absurd assigned (not_assigned_nil key)
    · exact absurd inside not_mem_nil
  | @kept before after keys places edit line there inductionHypothesis =>
    have last : line ∈ before ++ [line] := mem_append_right _ mem_cons_self
    have here : plan.Assigned before key ∨ key ∈ keys →
        Gives plan.next reads value plan.start
          (after ++ plan.put (plan.walk before) line) := by
      intro already
      refine (inductionHypothesis shows_.front already).append_tends ?_
      show Tends plan.next reads value (plan.walk after) _
      rw [there]
      exact shows_.puts _ line last
    obtain assigned | inside := some_
    · obtain before_ | now := assigned_concat.mp assigned
      · exact here (Or.inl before_)
      · refine Gives.after ?_
        show Gives plan.next reads value (plan.walk after) _
        rw [there]
        exact shows_.own _ line last now
    · exact here (Or.inr inside)
  | @added before after keys places edit other line made home new inductionHypothesis =>
    have here : plan.Assigned before key ∨ key ∈ keys →
        Gives plan.next reads value plan.start (after ++ [line]) := by
      intro already
      refine (inductionHypothesis shows_ already).append_tends ?_
      show Tends plan.next reads value (plan.walk after) _
      rw [home]
      exact shows_.adds other line made
    obtain assigned | inside := some_
    · exact here (Or.inl assigned)
    · obtain there | last := mem_append.mp inside
      · exact here (Or.inr there)
      · refine Gives.after ?_
        show Gives plan.next reads value (plan.walk after) _
        rw [home, ← mem_singleton.mp last]
        exact shows_.ownAdded line (mem_singleton.mp last ▸ made)
  | opened edit new inductionHypothesis =>
    exact (inductionHypothesis shows_.earlier some_).append_tends
      (shows_.opens _ _ _ (mem_append_right _ mem_cons_self))

/-- A wanted key that is not to be removed has a line, so what was asked for is read. -/
theorem Fulfilled.lastGiven_eq [BEq Place]
    (fulfilled : plan.Fulfilled before after keys places)
    (shows_ : plan.Shows before places reads key value) (wanted : (plan.added key).isSome = true) :
    lastGiven plan.next reads plan.start after = some value :=
  (fulfilled.edit.gives shows_ (fulfilled.complete key wanted)).lastGiven_eq

end

end Plan

end Text
