/-
This file is about reading a list of lines for the last value that one of them
gives, each line being read in the state the lines before it leave.

Two lists of lines are read alike when they leave the same state and the same
value, whatever was found before them. Lines that are read alike one by one are
read alike together, and a value that every line gives, or none, is the one found
as soon as one line gives it.
-/

import Mathlib.Logic.Basic

namespace Text

open List

section

variable {State Item Value : Type} (next : State → Item → State)
  (gives : State → Item → Option Value)

/-- One line read: the state it leaves, and the last value found so far. -/
def look (reading : State × Option Value) (line : Item) : State × Option Value :=
  (next reading.1 line, (gives reading.1 line).or reading.2)

/-- The last value that the lines give. -/
def lastGiven (start : State) (lines : List Item) : Option Value :=
  (lines.foldl (look next gives) (start, none)).2

/-- The two lists of lines are read alike from a state on. -/
def ReadAlike (state : State) (first second : List Item) : Prop :=
  ∀ found, first.foldl (look next gives) (state, found) =
    second.foldl (look next gives) (state, found)

variable {next gives}

theorem foldl_look_state (lines : List Item) (reading : State × Option Value) :
    (lines.foldl (look next gives) reading).1 = lines.foldl next reading.1 := by
  induction lines generalizing reading with
  | nil => rfl
  | cons line lines inductionHypothesis => exact inductionHypothesis _

theorem ReadAlike.refl (state : State) (lines : List Item) : ReadAlike next gives state lines lines :=
  fun _ => rfl

variable {lines : List Item} {state : State}

theorem ReadAlike.trans {first second third : List Item}
    (one : ReadAlike next gives state first second)
    (other : ReadAlike next gives state second third) : ReadAlike next gives state first third :=
  fun found => (one found).trans (other found)

theorem ReadAlike.symm {first second : List Item}
    (alike : ReadAlike next gives state first second) : ReadAlike next gives state second first :=
  fun found => (alike found).symm

theorem ReadAlike.append {first second more others : List Item}
    (one : ReadAlike next gives state first second)
    (rest : ReadAlike next gives (second.foldl next state) more others) :
    ReadAlike next gives state (first ++ more) (second ++ others) := by
  intro found
  have state_ : (second.foldl (look next gives) (state, found)).1 = second.foldl next state :=
    foldl_look_state _ _
  rw [foldl_append, foldl_append, one found]
  have step := rest (second.foldl (look next gives) (state, found)).2
  rwa [← state_] at step

/-- Lines as good as none, put together. -/
theorem ReadAlike.append_nothing {first more : List Item}
    (one : ReadAlike next gives state first []) (rest : ReadAlike next gives state more []) :
    ReadAlike next gives state (first ++ more) [] :=
  one.append rest

theorem ReadAlike.lastGiven_eq {start : State} {first second : List Item}
    (alike : ReadAlike next gives start first second) :
    lastGiven next gives start first = lastGiven next gives start second :=
  congrArg Prod.snd (alike none)

/-- A line that is read as another one. -/
theorem readAlike_line {first second : Item} (sameNext : next state first = next state second)
    (sameGiven : gives state first = gives state second) :
    ReadAlike next gives state [first] [second] := by
  intro found
  unfold List.foldl List.foldl look
  rw [sameNext, sameGiven]

/-- A line that leaves the state and gives nothing is as good as none. -/
theorem readAlike_nothing {state : State} {line : Item} (stays : next state line = state)
    (nothing : gives state line = none) : ReadAlike next gives state [line] [] := by
  intro found
  unfold List.foldl List.foldl look
  rw [stays, nothing]
  rfl

/-- Lines each of which is as good as none. -/
theorem readAlike_nil (quiet : ∀ line ∈ lines, next state line = state ∧ gives state line = none) :
    ReadAlike next gives state lines [] := by
  induction lines with
  | nil => exact .refl _ _
  | cons line lines inductionHypothesis =>
    obtain ⟨here, there⟩ := forall_mem_cons.mp quiet
    exact (readAlike_nothing here.1 here.2).append (inductionHypothesis there)

/-- Lines changed one by one, each to one that is read as it was where it stands. -/
theorem readAlike_map_along {change : Item → Item} {lines : List Item} (state : State)
    (same : ∀ front line back, lines = front ++ line :: back →
      next (front.foldl next state) (change line) = next (front.foldl next state) line ∧
        gives (front.foldl next state) (change line) = gives (front.foldl next state) line) :
    ReadAlike next gives state (lines.map change) lines := by
  induction lines generalizing state with
  | nil => exact .refl _ _
  | cons line lines inductionHypothesis =>
    have here := same [] line lines rfl
    refine (readAlike_line here.1 here.2).append (inductionHypothesis _ fun front one back parts => ?_)
    exact same (line :: front) one back (congrArg (List.cons line) parts)

/-! ### Lines that give nothing -/

/-- Lines that leave what was found, though not the state. -/
def Silent (next : State → Item → State) (gives : State → Item → Option Value) (state : State)
    (lines : List Item) : Prop :=
  ∀ found, (lines.foldl (look next gives) (state, found)).2 = found

theorem Silent.nil (state : State) : Silent next gives state [] := fun _ => rfl

theorem Silent.cons {state : State} {line : Item} {more : List Item}
    (nothing : gives state line = none) (rest : Silent next gives (next state line) more) :
    Silent next gives state (line :: more) := by
  intro found
  rw [foldl_cons]
  unfold look
  rw [nothing]
  exact rest found

/-- Lines none of which gives anything, whatever the state is. -/
theorem silent_of_mem (state : State) (none_ : ∀ line ∈ lines, ∀ state, gives state line = none) :
    Silent next gives state lines := by
  induction lines generalizing state with
  | nil => exact .nil state
  | cons line lines inductionHypothesis =>
    obtain ⟨here, there⟩ := forall_mem_cons.mp none_
    exact .cons (here state) (inductionHypothesis _ there)

theorem silent_of_alike (alike : ReadAlike next gives state lines []) :
    Silent next gives state lines :=
  fun found => congrArg Prod.snd (alike found)

/-- Lines after which only silent ones come. -/
theorem lastGiven_append_silent {start : State} {more : List Item}
    (silent : Silent next gives (lines.foldl next start) more) :
    lastGiven next gives start (lines ++ more) = lastGiven next gives start lines := by
  unfold lastGiven
  have left : lines.foldl (look next gives) (start, none) =
      (lines.foldl next start, (lines.foldl (look next gives) (start, none)).2) :=
    Prod.ext (foldl_look_state _ _) rfl
  rw [foldl_append, left, silent]

/-! ### Lines that give one value -/

/-- Lines that give this value or leave what was found. -/
def Tends (next : State → Item → State) (gives : State → Item → Option Value) (value : Value)
    (state : State) (lines : List Item) : Prop :=
  ∀ found, (lines.foldl (look next gives) (state, found)).2 = found ∨
    (lines.foldl (look next gives) (state, found)).2 = some value

/-- Lines that give this value. -/
def Gives (next : State → Item → State) (gives : State → Item → Option Value) (value : Value)
    (state : State) (lines : List Item) : Prop :=
  ∀ found, (lines.foldl (look next gives) (state, found)).2 = some value

variable {value : Value}

theorem foldl_look_append (state : State) (found : Option Value) (lines more : List Item) :
    (lines ++ more).foldl (look next gives) (state, found) =
      more.foldl (look next gives)
        (lines.foldl next state, (lines.foldl (look next gives) (state, found)).2) := by
  rw [foldl_append]
  congr 1
  exact Prod.ext (foldl_look_state _ _) rfl

theorem Silent.tends (silent : Silent next gives state lines) :
    Tends next gives value state lines := fun found => Or.inl (silent found)

theorem Tends.append {more : List Item} (one : Tends next gives value state lines)
    (rest : Tends next gives value (lines.foldl next state) more) :
    Tends next gives value state (lines ++ more) := by
  intro found
  rw [foldl_look_append]
  rcases rest (lines.foldl (look next gives) (state, found)).2 with left | given
  · rw [left]
    exact one found
  · exact Or.inr given

theorem Gives.append_tends {more : List Item} (one : Gives next gives value state lines)
    (rest : Tends next gives value (lines.foldl next state) more) :
    Gives next gives value state (lines ++ more) := by
  intro found
  rw [foldl_look_append]
  rcases rest (lines.foldl (look next gives) (state, found)).2 with left | given
  · rw [left]
    exact one found
  · exact given

theorem Gives.after {state : State} {lines more : List Item}
    (rest : Gives next gives value (lines.foldl next state) more) :
    Gives next gives value state (lines ++ more) := by
  intro found
  rw [foldl_look_append]
  exact rest _

theorem tends_line {line : Item}
    (either : gives state line = none ∨ gives state line = some value) :
    Tends next gives value state [line] := by
  intro found
  unfold List.foldl List.foldl look
  rcases either with none_ | given
  · rw [none_]
    exact Or.inl rfl
  · rw [given]
    exact Or.inr rfl

theorem gives_line {line : Item} (given : gives state line = some value) :
    Gives next gives value state [line] := by
  intro found
  unfold List.foldl List.foldl look
  rw [given]
  rfl

/-- Lines each of which gives the value or nothing, where it stands. -/
theorem tends_of_lines (state : State) (each : ∀ front line back, lines = front ++ line :: back →
      gives (front.foldl next state) line = none ∨
        gives (front.foldl next state) line = some value) :
    Tends next gives value state lines := by
  induction lines generalizing state with
  | nil => exact fun found => Or.inl rfl
  | cons line lines inductionHypothesis =>
    refine Tends.append (tends_line (each [] line lines rfl))
      (inductionHypothesis _ fun front one back parts => ?_)
    exact each (line :: front) one back (congrArg (List.cons line) parts)

/-- As soon as one of them gives it, it is the one that is found. -/
theorem gives_of_lines {front back : List Item} {line : Item} (state : State)
    (given : gives (front.foldl next state) line = some value)
    (rest : Tends next gives value ((front ++ [line]).foldl next state) back) :
    Gives next gives value state (front ++ line :: back) := by
  have here : Gives next gives value state (front ++ [line]) := Gives.after (gives_line given)
  have whole := here.append_tends rest
  rwa [append_assoc] at whole

/-- Lines that give the value or nothing whatever the state is, one of which gives it. -/
theorem gives_of_mem (state : State)
    (each : ∀ line ∈ lines, ∀ state, gives state line = none ∨ gives state line = some value)
    {line : Item} (member : line ∈ lines) (given : ∀ state, gives state line = some value) :
    Gives next gives value state lines := by
  obtain ⟨front, back, rfl⟩ := append_of_mem member
  refine gives_of_lines state (given _) (tends_of_lines _ fun before one after parts => ?_)
  refine each one ?_ _
  rw [parts]
  exact mem_append_right _ (mem_cons_of_mem _
    (mem_append_right _ mem_cons_self))

theorem Gives.congr {first second : List Item} (alike : ReadAlike next gives state first second)
    (given : Gives next gives value state second) :
    Gives next gives value state first := fun found => (congrArg Prod.snd (alike found)).trans
  (given found)

/-- Lines changed one by one that stay in the states they were in. -/
theorem foldl_map_along {change : Item → Item} (state : State)
    (stays : ∀ front line back, lines = front ++ line :: back →
      next (front.foldl next state) (change line) = next (front.foldl next state) line) :
    (lines.map change).foldl next state = lines.foldl next state := by
  induction lines generalizing state with
  | nil => rfl
  | cons line lines inductionHypothesis =>
    have here : next state (change line) = next state line := stays [] line lines rfl
    rw [map_cons, foldl_cons, foldl_cons, here]
    exact inductionHypothesis _ fun front one back parts =>
      stays (line :: front) one back (congrArg (List.cons line) parts)

/-- Lines changed one by one, each to one that gives the value or nothing where it stands. -/
theorem tends_map_along {change : Item → Item} (state : State)
    (stays : ∀ front line back, lines = front ++ line :: back →
      next (front.foldl next state) (change line) = next (front.foldl next state) line)
    (each : ∀ front line back, lines = front ++ line :: back →
      gives (front.foldl next state) (change line) = none ∨
        gives (front.foldl next state) (change line) = some value) :
    Tends next gives value state (lines.map change) := by
  induction lines generalizing state with
  | nil => exact fun found => Or.inl rfl
  | cons line lines inductionHypothesis =>
    have here : next state (change line) = next state line := stays [] line lines rfl
    have rest := inductionHypothesis (next state line)
      (fun front one back parts => stays (line :: front) one back
        (congrArg (List.cons line) parts))
      (fun front one back parts => each (line :: front) one back
        (congrArg (List.cons line) parts))
    rw [← here] at rest
    exact Tends.append (tends_line (each [] line lines rfl)) rest

/-- One of them gives it. -/
theorem gives_map_along {change : Item → Item} (state : State)
    (stays : ∀ front line back, lines = front ++ line :: back →
      next (front.foldl next state) (change line) = next (front.foldl next state) line)
    (each : ∀ front line back, lines = front ++ line :: back →
      gives (front.foldl next state) (change line) = none ∨
        gives (front.foldl next state) (change line) = some value) {front back : List Item}
    {line : Item} (parts : lines = front ++ line :: back)
    (given : gives (front.foldl next state) (change line) = some value) :
    Gives next gives value state (lines.map change) := by
  subst parts
  have before : (front.map change).foldl next state = front.foldl next state :=
    foldl_map_along state fun ahead one behind same => by
      refine stays ahead one (behind ++ line :: back) ?_
      rw [same, append_assoc]
      rfl
  rw [map_append, map_cons]
  refine gives_of_lines state (by rwa [before]) ?_
  have after := stays front line back rfl
  rw [foldl_append, before]
  show Tends next gives value (next (front.foldl next state) (change line)) _
  rw [after]
  have shift : ∀ ahead : List Item, ahead.foldl next (next (front.foldl next state) line) =
      (front ++ line :: ahead).foldl next state := by
    intro ahead
    rw [foldl_append]
    rfl
  refine tends_map_along _ (fun ahead one behind same => ?_) fun ahead one behind same => ?_
  · rw [shift]
    refine stays (front ++ line :: ahead) one behind ?_
    rw [same, append_assoc]
    rfl
  · rw [shift]
    refine each (front ++ line :: ahead) one behind ?_
    rw [same, append_assoc]
    rfl

theorem Gives.lastGiven_eq {start : State} (given : Gives next gives value start lines) :
    lastGiven next gives start lines = some value :=
  given none

theorem Silent.lastGiven_eq {start : State} (silent : Silent next gives start lines) :
    lastGiven next gives start lines = none :=
  silent none

/-- What was found last, some line gave. -/
theorem exists_of_lastGiven {start : State}
    (found : lastGiven next gives start lines = some value) :
    ∃ line ∈ lines, ∃ state, gives state line = some value := by
  have from_ : ∀ (lines : List Item) (state : State) (before : Option Value),
      (lines.foldl (look next gives) (state, before)).2 = some value →
        before = some value ∨ ∃ line ∈ lines, ∃ state, gives state line = some value := by
    intro lines
    induction lines with
    | nil => exact fun _ _ same => Or.inl same
    | cons line lines inductionHypothesis =>
      intro state before later
      rcases inductionHypothesis _ _ later with here | ⟨one, inside, given⟩
      · rcases Option.or_eq_some_iff.mp here with given | ⟨-, same⟩
        · exact Or.inr ⟨line, mem_cons_self, state, given⟩
        · exact Or.inl same
      · exact Or.inr ⟨one, mem_cons_of_mem _ inside, given⟩
  rcases from_ lines start none found with absent | given
  · cases absent
  · exact given

/-- What changed lines give, when the changes leave every state as it is. -/
theorem lastGiven_changed (change : Item → Item)
    (stays : ∀ state line, next state (change line) = next state line) (start : State)
    (lines : List Item) : lastGiven next gives start (lines.map change) =
      lastGiven next (fun state line => gives state (change line)) start lines := by
  have same : (fun reading line => look next gives reading (change line)) =
      look next fun state line => gives state (change line) := by
    funext reading line
    unfold look
    rw [stays]
  unfold lastGiven
  rw [foldl_map, same]

/-- A value that is made of what the lines give. -/
theorem lastGiven_map {Other : Type} (make : Value → Other) (start : State) (lines : List Item) :
    lastGiven next (fun state line => (gives state line).map make) start lines =
      (lastGiven next gives start lines).map make := by
  have whole : ∀ (lines : List Item) (state : State) (found : Option Value),
      (lines.foldl (look next fun state line => (gives state line).map make)
        (state, found.map make)).2 =
        (lines.foldl (look next gives) (state, found)).2.map make := by
    intro lines
    induction lines with
    | nil => exact fun _ _ => rfl
    | cons line lines inductionHypothesis =>
      intro state found
      rw [foldl_cons, foldl_cons]
      unfold look
      dsimp only
      have step : ((gives state line).map make).or (found.map make) =
          ((gives state line).or found).map make := by
        cases gives state line <;> rfl
      rw [step]
      exact inductionHypothesis _ _
  exact whole lines start none

end

end Text
