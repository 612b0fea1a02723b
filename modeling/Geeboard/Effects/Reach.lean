/-
This file is about how a run gets somewhere: which sites it reaches, and in what
state it ends.

"The step is reached" is the half of a condition on failures that the outcomes
alone do not say: a step that is never awaited cannot go wrong. A run of a
sequence reaches what its parts reach, and a step reaches nothing outside itself,
so whether a site is reached is found by following the names.

`Ends` is a run with a condition on its end, and `Goes` a run with a condition on
its end and on the sites it reached. Their rules follow the code, so a proof about
every outcome of every step is a walk through the code.
-/

import Geeboard.Effects.Run

namespace Effects

namespace Program

variable {interface : Interface} {First Second : Type}

/-- The run awaits the step at the site. -/
def Reaches (machine : Machine interface) (actor : machine.Actor)
    (faults : interface.Site → machine.Outcome) (target : interface.Site) :
    Program interface First → machine.World → Prop
  | stop _, _ => False
  | ask site call next, world =>
    site = target ∨
      Reaches machine actor faults target (next (machine.answer actor (faults site) call world).1)
        (machine.answer actor (faults site) call world).2

section Reaches

variable {machine : Machine interface} {actor : machine.Actor}
  {faults : interface.Site → machine.Outcome} {target : interface.Site}

@[simp] theorem reaches_ask (site : interface.Site) (call : interface.Call)
    (next : interface.Answer call → Program interface First) (world : machine.World) :
    Reaches machine actor faults target (ask site call next) world ↔
      site = target ∨ Reaches machine actor faults target
        (next (machine.answer actor (faults site) call world).1)
        (machine.answer actor (faults site) call world).2 := Iff.rfl

theorem reaches_bind (program : Program interface First)
    (rest : First → Program interface Second) (world : machine.World) :
    Reaches machine actor faults target (program.bind rest) world ↔
      Reaches machine actor faults target program world ∨
        Reaches machine actor faults target (rest (run machine actor faults program world).1)
          (run machine actor faults program world).2 := by
  induction program generalizing world with
  | stop result => exact (or_iff_right id).symm
  | ask site call next inductionHypothesis =>
    rw [bind_ask, reaches_ask, reaches_ask, inductionHypothesis, run_ask, or_assoc]

theorem reaches_within (label head : interface.Label) (tail : interface.Site)
    (program : Program interface First) (world : machine.World) :
    Reaches machine actor faults (head :: tail) (within label program) world ↔
      label = head ∧
        Reaches machine actor (fun site => faults (label :: site)) tail program world := by
  induction program generalizing world with
  | stop result => exact (and_iff_right_of_imp False.elim).symm
  | ask site call next inductionHypothesis =>
    rw [within_ask, reaches_ask, reaches_ask, inductionHypothesis, List.cons.injEq, and_or_left]

end Reaches

/-- Every site the program can await, whatever the answers were, begins with one of the labels. -/
def Begins (labels : List interface.Label) : Program interface First → Prop
  | stop _ => True
  | ask site _ next => (∃ label tail, label ∈ labels ∧ site = label :: tail) ∧
      ∀ answer, Begins labels (next answer)

section Begins

variable {labels : List interface.Label}

theorem begins_bind {program : Program interface First}
    {rest : First → Program interface Second} (first : Begins labels program)
    (second : ∀ result, Begins labels (rest result)) : Begins labels (program.bind rest) := by
  induction program with
  | stop result => exact second result
  | ask site call next inductionHypothesis =>
    exact ⟨first.1, fun answer => inductionHypothesis answer (first.2 answer)⟩

theorem begins_within {label : interface.Label} (member : label ∈ labels)
    (program : Program interface First) : Begins labels (within label program) := by
  induction program with
  | stop result => trivial
  | ask site call next inductionHypothesis =>
    exact ⟨⟨label, site, member, rfl⟩, inductionHypothesis⟩

theorem not_reaches_of_begins {machine : Machine interface} {actor : machine.Actor}
    {faults : interface.Site → machine.Outcome} {label : interface.Label}
    {tail : interface.Site} {program : Program interface First} (begins : Begins labels program)
    (other : label ∉ labels) (world : machine.World) :
    ¬ Reaches machine actor faults (label :: tail) program world := by
  induction program generalizing world with
  | stop result => exact id
  | ask site call next inductionHypothesis =>
    obtain ⟨⟨head, rest, member, same⟩, others⟩ := begins
    rw [reaches_ask, same]
    rintro (target | reaches)
    · cases target
      exact other member
    · exact inductionHypothesis _ (others _) _ reaches

end Begins

end Program

namespace Code

variable {interface : Interface} {Locals Inner First Second : Type}

/-- The run of the code awaits the step at the site. -/
def Reaches (machine : Machine interface) (actor : machine.Actor)
    (faults : interface.Site → machine.Outcome) (target : interface.Site)
    (code : Code interface Locals First) (locals : Locals) (world : machine.World) : Prop :=
  (code locals).Reaches machine actor faults target world

section Reaches

variable {machine : Machine interface} {actor : machine.Actor}
  {faults : interface.Site → machine.Outcome} {target : interface.Site}

@[simp] theorem reaches_call (label : interface.Label) (request : interface.Call)
    (locals : Locals) (world : machine.World) :
    (call label request : Code interface Locals _).Reaches machine actor faults target locals
      world ↔ [label] = target := or_iff_left id

@[simp] theorem reaches_step (label head : interface.Label) (tail : interface.Site)
    (code : Code interface Locals First) (locals : Locals) (world : machine.World) :
    (step label code).Reaches machine actor faults (head :: tail) locals world ↔
      label = head ∧
        code.Reaches machine actor (fun site => faults (label :: site)) tail locals world :=
  Program.reaches_within label head tail _ world

@[simp] theorem reaches_attempt (code : Code interface Locals First) (locals : Locals)
    (world : machine.World) :
    code.attempt.Reaches machine actor faults target locals world ↔
      code.Reaches machine actor faults target locals world :=
  (Program.reaches_bind _ _ _).trans (or_iff_left id)

@[simp] theorem reaches_fresh (inner : Inner) (code : Code interface Inner First)
    (locals : Locals) (world : machine.World) :
    (fresh inner code : Code interface Locals First).Reaches machine actor faults target locals
      world ↔ code.Reaches machine actor faults target inner world :=
  (Program.reaches_bind _ _ _).trans (or_iff_left id)

theorem reaches_bind (code : Code interface Locals First)
    (rest : First → Code interface Locals Second) (locals : Locals) (world : machine.World) :
    (code >>= rest).Reaches machine actor faults target locals world ↔
      code.Reaches machine actor faults target locals world ∨
        ∃ result after later,
          code.run machine actor faults locals world = ((.ok result, after), later) ∧
            (rest result).Reaches machine actor faults target after later := by
  refine (Program.reaches_bind _ _ _).trans (or_congr Iff.rfl ?_)
  unfold run
  rcases (code locals).run machine actor faults world with ⟨⟨failure | result, after⟩, later⟩
  · constructor
    · exact False.elim
    · rintro ⟨result, after, later, ended, -⟩
      cases ended
  · constructor
    · exact fun reaches => ⟨result, after, later, rfl, reaches⟩
    · rintro ⟨result, after, later, ended, reaches⟩
      cases ended
      exact reaches

theorem reaches_bind_ok {code : Code interface Locals First}
    {rest : First → Code interface Locals Second} {locals after : Locals}
    {world later : machine.World} {result : First}
    (ended : code.run machine actor faults locals world = ((.ok result, after), later)) :
    (code >>= rest).Reaches machine actor faults target locals world ↔
      code.Reaches machine actor faults target locals world ∨
        (rest result).Reaches machine actor faults target after later := by
  rw [reaches_bind]
  refine or_congr Iff.rfl ⟨?_, fun reaches => ⟨_, _, _, ended, reaches⟩⟩
  rintro ⟨_, _, _, same, reaches⟩
  rw [ended] at same
  cases same
  exact reaches

theorem reaches_bind_error {code : Code interface Locals First}
    {rest : First → Code interface Locals Second} {locals after : Locals}
    {world later : machine.World} {failure : interface.Failure}
    (ended : code.run machine actor faults locals world = ((.error failure, after), later)) :
    (code >>= rest).Reaches machine actor faults target locals world ↔
      code.Reaches machine actor faults target locals world := by
  rw [reaches_bind]
  refine or_iff_left ?_
  rintro ⟨_, _, _, same, -⟩
  rw [ended] at same
  cases same

end Reaches

/-! ### The labels a piece of code begins its sites with -/

/-- Every site the code can await begins with one of the labels. -/
def Begins (labels : List interface.Label) (code : Code interface Locals First) : Prop :=
  ∀ locals, (code locals).Begins labels

section Begins

variable {labels : List interface.Label}

theorem begins_pure (result : First) :
    Begins labels (pure result : Code interface Locals First) := fun _ => trivial

theorem begins_throw (failure : interface.Failure) :
    Begins labels (throw failure : Code interface Locals First) := fun _ => trivial

theorem begins_assign (change : Locals → Locals) :
    Begins labels (assign change : Code interface Locals Unit) := fun _ => trivial

theorem begins_call {label : interface.Label} (member : label ∈ labels)
    (request : interface.Call) :
    Begins labels (call label request : Code interface Locals _) :=
  fun _ => ⟨⟨label, [], member, rfl⟩, fun _ => trivial⟩

/-- Whatever a step does, it does under its label. -/
theorem begins_step {label : interface.Label} (member : label ∈ labels)
    (code : Code interface Locals First) : Begins labels (step label code) :=
  fun locals => Program.begins_within member (code locals)

theorem begins_bind {code : Code interface Locals First}
    {rest : First → Code interface Locals Second} (first : Begins labels code)
    (second : ∀ result, Begins labels (rest result)) : Begins labels (code >>= rest) := by
  intro locals
  refine Program.begins_bind (first locals) ?_
  rintro ⟨result | failure, after⟩
  · trivial
  · exact second _ after

theorem begins_attempt {code : Code interface Locals First} (begins : Begins labels code) :
    Begins labels code.attempt :=
  fun locals => Program.begins_bind (begins locals) fun _ => trivial

theorem begins_whenever (condition : Bool) {code : Code interface Locals Unit}
    (begins : Begins labels code) : Begins labels (whenever condition code) := by
  cases condition with
  | false => exact begins_pure ()
  | true => exact begins

theorem not_reaches_of_begins {machine : Machine interface} {actor : machine.Actor}
    {faults : interface.Site → machine.Outcome} {label : interface.Label}
    {tail : interface.Site} {code : Code interface Locals First} (begins : Begins labels code)
    (other : label ∉ labels) (locals : Locals) (world : machine.World) :
    ¬ code.Reaches machine actor faults (label :: tail) locals world :=
  Program.not_reaches_of_begins (begins locals) other world

end Begins

/-! ### The end of a run -/

/-- The run of the code ends as described: its result or failure, its variables, the world. -/
def Ends (machine : Machine interface) (actor : machine.Actor)
    (faults : interface.Site → machine.Outcome) (code : Code interface Locals First)
    (locals : Locals) (world : machine.World)
    (post : Except interface.Failure First → Locals → machine.World → Prop) : Prop :=
  post (code.run machine actor faults locals world).1.1
    (code.run machine actor faults locals world).1.2
    (code.run machine actor faults locals world).2

section Ends

variable {machine : Machine interface} {actor : machine.Actor}
  {faults : interface.Site → machine.Outcome} {locals : Locals} {world : machine.World}

variable {code : Code interface Locals First}
  {post : Except interface.Failure First → Locals → machine.World → Prop}

theorem ends_mono {weaker : Except interface.Failure First → Locals → machine.World → Prop}
    (ends : Ends machine actor faults code locals world post)
    (implies : ∀ result after later, post result after later → weaker result after later) :
    Ends machine actor faults code locals world weaker := implies _ _ _ ends

theorem ends_and {first second : Except interface.Failure First → Locals → machine.World → Prop}
    (one : Ends machine actor faults code locals world first)
    (other : Ends machine actor faults code locals world second) :
    Ends machine actor faults code locals world
      fun result after later => first result after later ∧ second result after later :=
  ⟨one, other⟩

theorem ends_pure {result : First} (holds : post (.ok result) locals world) :
    Ends machine actor faults (pure result) locals world post := holds

theorem ends_throw {failure : interface.Failure} (holds : post (.error failure) locals world) :
    Ends machine actor faults (throw failure) locals world post := holds

theorem ends_call {label : interface.Label} {request : interface.Call}
    {post : Except interface.Failure (interface.Reply request) → Locals → machine.World → Prop}
    (holds : post (machine.answer actor (faults [label]) request world).1 locals
      (machine.answer actor (faults [label]) request world).2) :
    Ends machine actor faults (call label request) locals world post := holds

/-- A sequence: its first part ends so that, with a result, the rest ends as described. -/
theorem ends_bind {rest : First → Code interface Locals Second}
    {post : Except interface.Failure Second → Locals → machine.World → Prop}
    (first : Ends machine actor faults code locals world fun outcome after later =>
      match outcome with
      | .ok result => Ends machine actor faults (rest result) after later post
      | .error failure => post (.error failure) after later) :
    Ends machine actor faults (code >>= rest) locals world post := by
  unfold Ends at first ⊢
  rw [run_bind]
  rcases ended : code.run machine actor faults locals world with
    ⟨⟨failure | result, after⟩, later⟩
  · rw [ended] at first
    exact first
  · rw [ended] at first
    exact first

theorem ends_attempt {post : Except interface.Failure (Except interface.Failure First) → Locals →
      machine.World → Prop} (ends : Ends machine actor faults code locals world
      fun outcome after later => post (.ok outcome) after later) :
    Ends machine actor faults code.attempt locals world post := by
  unfold Ends
  rw [run_attempt]
  exact ends

theorem ends_step {label : interface.Label}
    (ends : Ends machine actor (fun site => faults (label :: site)) code locals world post) :
    Ends machine actor faults (step label code) locals world post := by
  unfold Ends
  rw [run_step]
  exact ends

/-- What the allowed calls keep holds at the end of code that makes no others. -/
theorem ends_of_uses {allowed : interface.Call → Prop} {holds : machine.World → Prop}
    (kept : ∀ outcome call world, allowed call → holds world →
      holds (machine.answer actor outcome call world).2) (uses : Uses allowed code)
    (before : holds world) :
    Ends machine actor faults code locals world fun _ _ later => holds later :=
  Program.run_preserves machine actor faults holds kept (uses locals) before

/-- What every call keeps holds at the end of any code. -/
theorem ends_of_kept {holds : machine.World → Prop}
    (kept : ∀ outcome call world, holds world →
      holds (machine.answer actor outcome call world).2)
    (code : Code interface Locals First) (before : holds world) :
    Ends machine actor faults code locals world fun _ _ later => holds later :=
  Program.run_preserves machine actor faults holds
    (fun outcome call world _ => kept outcome call world) (Program.uses_anything _) before

/-- A sequence whose failures are fine wherever they come from. -/
theorem ends_bind_any {rest : First → Code interface Locals Second}
    {post : Except interface.Failure Second → Locals → machine.World → Prop}
    (failed : ∀ failure after later, post (.error failure) after later)
    (next : ∀ result after later, Ends machine actor faults (rest result) after later post) :
    Ends machine actor faults (code >>= rest) locals world post := by
  refine ends_bind ?_
  show match (code.run machine actor faults locals world).1.1 with
    | .ok result => _
    | .error failure => _
  split
  · exact next _ _ _
  · exact failed _ _ _

end Ends

/-! ### The sites of a run and its end -/

/-- The run of the code goes as described: the sites it reaches, its result or failure, its
variables, the world. -/
def Goes (machine : Machine interface) (actor : machine.Actor)
    (faults : interface.Site → machine.Outcome) (code : Code interface Locals First)
    (locals : Locals) (world : machine.World)
    (post : (interface.Site → Prop) → Except interface.Failure First → Locals →
      machine.World → Prop) : Prop :=
  post (fun site => code.Reaches machine actor faults site locals world)
    (code.run machine actor faults locals world).1.1
    (code.run machine actor faults locals world).1.2
    (code.run machine actor faults locals world).2

section Goes

variable {machine : Machine interface} {actor : machine.Actor}
  {faults : interface.Site → machine.Outcome} {locals : Locals} {world : machine.World}

variable
  {post : (interface.Site → Prop) → Except interface.Failure First → Locals → machine.World → Prop}
  {code : Code interface Locals First}

theorem goes_mono {weaker : (interface.Site → Prop) → Except interface.Failure First → Locals →
      machine.World → Prop} (goes : Goes machine actor faults code locals world post)
    (implies : ∀ reached result after later, post reached result after later →
      weaker reached result after later) :
    Goes machine actor faults code locals world weaker := implies _ _ _ _ goes

/-- The end of a run, without the sites it reached. -/
theorem ends_of_goes (goes : Goes machine actor faults code locals world post) :
    Ends machine actor faults code locals world fun result after later =>
      ∃ reached, post reached result after later := ⟨_, goes⟩

/-- A run that ends as described, whatever it reaches. -/
theorem goes_of_ends {post : Except interface.Failure First → Locals → machine.World → Prop}
    (ends : Ends machine actor faults code locals world post) :
    Goes machine actor faults code locals world fun _ => post := ends

/-- Code that begins its sites with some labels reaches no other. -/
theorem goes_of_begins {labels : List interface.Label}
    {post : Except interface.Failure First → Locals → machine.World → Prop}
    (begins : Begins labels code) (ends : Ends machine actor faults code locals world post) :
    Goes machine actor faults code locals world fun reached result after later =>
      (∀ label tail, label ∉ labels → ¬ reached (label :: tail)) ∧ post result after later :=
  ⟨fun _ _ other => not_reaches_of_begins begins other locals world, ends⟩

theorem goes_pure {result : First} (holds : post (fun _ => False) (.ok result) locals world) :
    Goes machine actor faults (pure result) locals world post := holds

theorem goes_call {label : interface.Label} {request : interface.Call}
    {post : (interface.Site → Prop) → Except interface.Failure (interface.Reply request) →
      Locals → machine.World → Prop}
    (holds : post (fun site => [label] = site)
      (machine.answer actor (faults [label]) request world).1 locals
      (machine.answer actor (faults [label]) request world).2) :
    Goes machine actor faults (call label request) locals world post := by
  unfold Goes
  simp only [reaches_call, run_call]
  exact holds

theorem goes_bind {rest : First → Code interface Locals Second}
    {post : (interface.Site → Prop) → Except interface.Failure Second → Locals →
      machine.World → Prop}
    (first : Goes machine actor faults code locals world fun reached outcome after later =>
      match outcome with
      | .ok result => Goes machine actor faults (rest result) after later
          fun next => post fun site => reached site ∨ next site
      | .error failure => post reached (.error failure) after later) :
    Goes machine actor faults (code >>= rest) locals world post := by
  unfold Goes at first ⊢
  rcases ended : code.run machine actor faults locals world with
    ⟨⟨failure | result, after⟩, later⟩
  · simp only [ended] at first
    simp only [run_bind_error ended, reaches_bind_error ended]
    exact first
  · simp only [ended] at first
    simp only [run_bind_ok ended, reaches_bind_ok ended]
    exact first

theorem goes_attempt
    {post : (interface.Site → Prop) → Except interface.Failure (Except interface.Failure First) →
      Locals → machine.World → Prop} (goes : Goes machine actor faults code locals world
      fun reached outcome after later => post reached (.ok outcome) after later) :
    Goes machine actor faults code.attempt locals world post := by
  unfold Goes
  simp only [reaches_attempt, run_attempt]
  exact goes

theorem goes_succeeded {post : (interface.Site → Prop) → Except interface.Failure Bool → Locals →
      machine.World → Prop} (goes : Goes machine actor faults code locals world
      fun reached outcome after later => post reached (.ok outcome.isOk) after later) :
    Goes machine actor faults code.succeeded locals world post := by
  refine goes_bind (goes_attempt (goes_mono goes ?_))
  rintro reached (failure | result) after later holds
  · refine goes_pure ?_
    simp only [or_false]
    exact holds
  · refine goes_pure ?_
    simp only [or_false]
    exact holds

theorem goes_fresh {inner : Inner} {code : Code interface Inner First}
    (goes : Goes machine actor faults code inner world
      fun reached outcome _ later => post reached outcome locals later) :
    Goes machine actor faults (fresh inner code : Code interface Locals First) locals world
      post := by
  unfold Goes
  simp only [reaches_fresh, run_fresh]
  exact goes

/-- A step reaches what its code reaches, under its label, and nothing else. -/
theorem goes_step {label : interface.Label}
    (goes : Goes machine actor (fun site => faults (label :: site)) code locals world post) :
    Goes machine actor faults (step label code) locals world fun reached result after later =>
      (∀ other tail, other ≠ label → ¬ reached (other :: tail)) ∧
        post (fun tail => reached (label :: tail)) result after later := by
  have sites : (fun tail => (step label code).Reaches machine actor faults (label :: tail)
      locals world) =
      fun tail => code.Reaches machine actor (fun site => faults (label :: site)) tail locals
        world := by
    funext tail
    exact propext ((reaches_step label label tail code locals world).trans
      (and_iff_right rfl))
  refine ⟨fun other tail different => ?_, ?_⟩
  · exact not_reaches_of_begins (begins_step (List.mem_singleton.mpr rfl) code)
      (fun member => different (List.mem_singleton.mp member)) locals world
  · show post (fun tail => (step label code).Reaches machine actor faults (label :: tail)
      locals world) _ _ _
    rw [sites, run_step]
    exact goes

end Goes

end Code

end Effects
