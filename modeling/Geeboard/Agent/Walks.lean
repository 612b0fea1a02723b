/-
This file proves that the agent's walk cannot be led outside, and that it ends.

Between any two calls the game's process may change the tree in any way that moves
nothing out of it. The directory that is held was reached from the server's root,
one name after the other, through directories that were there when they were opened;
it still is below the root, or was removed, and then nothing is found or made in it.
No component the walk takes is a step up, whatever the links say: their targets are
brought to their normal form first, and refused where they lead out.
-/

import Geeboard.Agent.Beneath
import Mathlib.Logic.Function.Iterate

namespace Geeboard.Beneath

open Text Inodes List Option

/-! ### Components -/

/-- Components that are one name each and no step up. -/
def Clean (queue : List Name) : Prop :=
  ∀ name ∈ queue, '/' ∉ name ∧ name ≠ dots

theorem clean_segments {text : List Char} (stays : ∀ part ∈ segments text, part ≠ dots) :
    Clean (segments text) :=
  fun name member => ⟨not_mem_segment text name member, stays name member⟩

theorem clean_nil : Clean [] := fun _ member => absurd member not_mem_nil

theorem clean_append {first second : List Name} (one : Clean first) (other : Clean second) :
    Clean (first ++ second) := by
  intro name member
  obtain early | late := mem_append.mp member
  · exact one name early
  · exact other name late

/-- What a link's target becomes has no step up in it. -/
theorem afterLink_clean {inside : List Name} {target : List Char} {realRoot : Place}
    {parts : List Name} (followed : afterLink inside target realRoot = .ok parts) :
    Clean parts := by
  unfold afterLink at followed
  split at followed
  · dsimp only at followed
    split at followed
    · exact nomatch followed
    · next stays =>
      rw [not_or, Bool.not_eq_true] at stays
      split at followed
      · cases followed
        exact clean_nil
      · cases followed
        exact clean_segments (joined_stays (relative_upward _ _) stays.1)
  · dsimp only at followed
    split at followed
    · exact nomatch followed
    · next stays =>
      rw [Bool.not_eq_true] at stays
      split at followed
      · cases followed
        exact clean_nil
      · cases followed
        exact clean_segments (normalize_stays _ stays)

/-- The components of a request have no step up among them. -/
theorem partsOf_clean {requested : List Char} {parts : List Name}
    (taken : partsOf requested = .ok parts) : Clean parts := by
  unfold partsOf at taken
  split at taken
  · exact nomatch taken
  · dsimp only at taken
    generalize (if (List.dropWhile _ _ : List Char) = [] then ['.'] else List.dropWhile _ _) =
      relative at taken
    split at taken
    · exact nomatch taken
    · next stays =>
      rw [Bool.not_eq_true] at stays
      split at taken
      · cases taken
        exact clean_nil
      · cases taken
        exact fun name member =>
          clean_segments (normalize_stays _ stays) name (mem_of_mem_filter member)

/-! ### Runs -/

section
variable (kernel : Kernel) (root : Inode) (realRoot : Place) (options : Options)

/-- The file system and the walk. -/
structure Config where
  system : System
  walk : Walk

/-- What can happen next: the walk's call is answered, or fails for a reason of its own, or the
game's process changes the tree. -/
inductive Moves : Config → Config → Prop where
  | call (config : Config) (under : config.walk.isEnded = false) :
      Moves config ⟨(step kernel root realRoot options config.system config.walk).1,
        (step kernel root realRoot options config.system config.walk).2⟩
  | fails (config : Config) (code : String) (under : config.walk.isEnded = false) :
      Moves config ⟨config.system, refused code config.walk⟩
  | tampers (config : Config) (after : System) (change : Change root config.system after) :
      Moves config ⟨after, config.walk⟩

theorem moves_call {kernel : Kernel} {root : Inode} {realRoot : Place} {options : Options}
    {before after : System} {walk next : Walk} (under : walk.isEnded = false)
    (answered : step kernel root realRoot options before walk = (after, next)) :
    Moves kernel root realRoot options ⟨before, walk⟩ ⟨after, next⟩ := by
  have moved : Moves kernel root realRoot options ⟨before, walk⟩
      ⟨(step kernel root realRoot options before walk).1,
        (step kernel root realRoot options before walk).2⟩ := Moves.call _ under
  rw [answered] at moved
  exact moved

/-- The runs of a request, with the file systems they passed through. -/
inductive Run (start : System) (requested : List Char) : List System → Config → Prop where
  | begins : Run start requested [start] ⟨start, .arriving requested⟩
  | moves {past : List System} {config next : Config} (run : Run start requested past config)
      (moved : Moves kernel root realRoot options config next) :
      Run start requested (past ++ [next.system]) next

end

/-- Names that led from the root to a directory, each a real directory in the one before it, or
that one itself, in some file system of the past. -/
inductive Trod (root : Inode) (past : List System) : List Name → Inode → Prop where
  | root : Trod root past [] root
  | into {names : List Name} {dir child : Inode} {name : Name} {system : System}
      (trod : Trod root past names dir) (then' : system ∈ past)
      (named : system.entries dir name = some child) (kind : system.kind child = some .directory) :
      Trod root past (names ++ [name]) child
  | same {names : List Name} {dir : Inode} (trod : Trod root past names dir) :
      Trod root past (names ++ [['.']]) dir

theorem Trod.more {root : Inode} {past more : List System} {names : List Name} {dir : Inode}
    (trod : Trod root past names dir) : Trod root (past ++ more) names dir := by
  induction trod with
  | root => exact Trod.root
  | into _ then' named kind inductionHypothesis =>
    exact inductionHypothesis.into (mem_append_left _ then') named kind
  | same _ inductionHypothesis => exact inductionHypothesis.same

/-! ### What a walk holds -/

section
variable {kernel : Kernel} {root : Inode} {realRoot : Place} {options : Options}

/-- A directory that is held: below the root, or removed meanwhile. -/
structure Held (root : Inode) (system : System) (dir : Inode) : Prop where
  kind : system.kind dir = some .directory
  below : system.Below root dir ∨ system.removed dir = true

theorem held_tampered {before after : System} (tampered : Tampered root before after)
    {dir : Inode} (held : Held root before dir) : Held root after dir := by
  refine ⟨tampered.kinds dir _ held.kind, ?_⟩
  obtain below | removed := held.below
  · exact tampered.below dir below
  · refine Or.inr (tampered.removed dir ?_ removed)
    rw [held.kind]
    exact some_ne_none _

variable {system : System}

theorem held_root (sound : system.Sound root) : Held root system root :=
  ⟨sound.stands, Or.inl Relation.ReflTransGen.refl⟩

/-- What something is named in a directory that is held lies below the root. -/
theorem held_entry (sound : system.Sound root) {dir inode : Inode} {name : Name}
    (held : Held root system dir) (named : system.entries dir name = some inode) :
    system.Below root dir := by
  obtain below | removed := held.below
  · exact below
  · rw [sound.bare dir removed name] at named
    exact absurd named (some_ne_none inode).symm

/-- What a walk holds and is left with. -/
def Keeps (root : Inode) (past : List System) (system : System) : Walk → Prop
  | .arriving _ => True
  | .opening queue _ => Clean queue
  | .walking dir logical queue _ => Clean queue ∧ Held root system dir ∧ Trod root past logical dir
  | .blocked dir logical queue _ => Clean queue ∧ Held root system dir ∧ Trod root past logical dir
  | .missing dir logical queue _ => Clean queue ∧ Held root system dir ∧ Trod root past logical dir
  | .following dir logical queue _ =>
    Clean queue ∧ Held root system dir ∧ Trod root past logical dir
  | .ended (.ok located) =>
    ('/' ∉ located.name ∧ located.name ≠ dots) ∧ Held root system located.dir ∧
      Trod root past located.logical located.dir
  | .ended (.error _) => True

theorem keeps_tampered {past : List System} {before after : System}
    (tampered : Tampered root before after) {walk : Walk} (keeps : Keeps root past before walk) :
    Keeps root (past ++ [after]) after walk := by
  have carried : ∀ {dir logical}, Held root before dir ∧ Trod root past logical dir →
      Held root after dir ∧ Trod root (past ++ [after]) logical dir :=
    fun both => ⟨held_tampered tampered both.1, both.2.more⟩
  cases walk with
  | arriving => exact trivial
  | opening => exact keeps
  | walking => exact ⟨keeps.1, carried keeps.2⟩
  | blocked => exact ⟨keeps.1, carried keeps.2⟩
  | missing => exact ⟨keeps.1, carried keeps.2⟩
  | following => exact ⟨keeps.1, carried keeps.2⟩
  | ended outcome =>
    cases outcome with
    | error trouble => exact trivial
    | ok located => exact ⟨keeps.1, carried keeps.2⟩

/-- What was seen as a directory at a name is what the name names, unless it is the directory it
is looked for in. -/
theorem seen_directory {dir child : Inode} {name : Name} (up : name ≠ dots)
    (found : seen kernel system dir name = some (.directory child)) :
    name = ['.'] ∧ child = dir ∨
      system.entries dir name = some child ∧ system.kind child = some .directory := by
  unfold seen at found
  split at found
  · cases found
  · split at found
    · next here =>
      cases found
      exact Or.inl ⟨here, rfl⟩
    · split at found
      · next above => exact absurd above up
      · obtain ⟨inode, named, kind⟩ := map_eq_some_iff.mp found
        refine Or.inr ?_
        split at kind
        · next directory =>
          cases kind
          exact ⟨named, directory⟩
        · cases kind
        · cases kind

theorem seen_other {dir inode : Inode} {name : Name}
    (found : seen kernel system dir name = some (.other inode)) :
    system.entries dir name = some inode := by
  unfold seen at found
  split at found
  · cases found
  · split at found
    · cases found
    · split at found
      · cases found
      · obtain ⟨inode', named, kind⟩ := map_eq_some_iff.mp found
        split at kind
        · cases kind
        · cases kind
        · cases kind
          exact named

theorem seen_none {dir : Inode} {name : Name} (free : seen kernel system dir name = none) :
    system.entries dir name = none := by
  unfold seen at free
  split at free
  · cases free
  · split at free
    · cases free
    · split at free
      · cases free
      · exact map_eq_none_iff.mp free

/-- Something is made in a directory that is held only below the root, as any process there could
make it. -/
theorem create_change {made : System} {dir inode : Inode} {name : Name} {kind : Kind (List Char)}
    (held : Held root system dir)
    (created : create kernel system dir name kind = .ok (made, inode)) :
    Change root system made ∧
      made = (system.withInode inode kind).withEntry dir name (some inode) := by
  unfold create at created
  split at created
  · cases created
  · next free =>
    split at created
    · cases created
    · next open' =>
      split at created
      · cases created
      · next fresh =>
        cases created
        rw [Bool.not_eq_true] at free open'
        rw [isSome_eq_false_iff, isNone_iff_eq_none] at free
        have below := held.below.resolve_right fun removed => by
          rw [open'] at removed
          exact absurd removed Bool.false_ne_true
        exact ⟨Change.make dir name inode kind below open' (seen_none free)
          (kernel.isFresh system inode fresh), rfl⟩

theorem keeps_restart {past : List System} {logical : List Name} {target : List Char}
    {rest : List Name} {links : Nat} (clean : Clean rest) :
    Keeps root past system (restart realRoot logical target rest links) := by
  unfold restart
  split
  · exact trivial
  · cases followed : afterLink logical target realRoot with
    | error trouble => exact trivial
    | ok parts => exact clean_append (afterLink_clean followed) clean

theorem clean_tail {queue : List Name} (clean : Clean queue) : Clean queue.tail :=
  fun name member => clean name (mem_of_mem_tail member)

/-- A call leaves the walk holding what it should, and the file system as any process in the tree
could leave it. -/
theorem keeps_step {past : List System} (sound : system.Sound root) (present : system ∈ past)
    {walk : Walk} (keeps : Keeps root past system walk) :
    Tampered root system (step kernel root realRoot options system walk).1 ∧
      Keeps root (past ++ [(step kernel root realRoot options system walk).1])
        (step kernel root realRoot options system walk).1
        (step kernel root realRoot options system walk).2 := by
  have idle : Tampered root system system :=
    ⟨fun _ _ kind => kind, fun _ _ removed => removed, fun sound => sound,
      fun _ below => Or.inl below⟩
  have refuses : ∀ trouble, Keeps root (past ++ [system]) system (.ended (.error trouble)) :=
    fun _ => trivial
  cases walk with
  | arriving requested =>
    unfold step
    dsimp only
    cases taken : partsOf requested with
    | error trouble => exact ⟨idle, trivial⟩
    | ok queue => exact ⟨idle, partsOf_clean taken⟩
  | opening queue links => exact ⟨idle, keeps, held_root sound, Trod.root⟩
  | walking dir logical queue links =>
    obtain ⟨clean, held, trod⟩ := keeps
    have stays : ∀ queue, Clean queue → Clean queue ∧ Held root system dir ∧
        Trod root (past ++ [system]) logical dir := fun _ clean => ⟨clean, held, trod.more⟩
    match queue with
    | [] => exact ⟨idle, ⟨not_mem_nil, show ([] : Name) ≠ dots by decide⟩, held, trod.more⟩
    | [name] =>
      have one := clean name mem_cons_self
      unfold step
      dsimp only
      split
      · split
        · exact ⟨idle, stays [name] clean⟩
        · exact ⟨idle, one, held, trod.more⟩
      · exact ⟨idle, one, held, trod.more⟩
    | name :: next :: rest =>
      have one := clean name mem_cons_self
      unfold step
      dsimp only
      split
      · next child found =>
        refine ⟨idle, clean_tail clean, ?_⟩
        obtain ⟨rfl, rfl⟩ | ⟨named, kind⟩ := seen_directory one.2 found
        · exact ⟨held, trod.more.same⟩
        · have below := (held_entry sound held named).tail ⟨⟨name, named⟩, kind⟩
          exact ⟨⟨kind, Or.inl below⟩,
            trod.more.into (mem_append_left _ present) named kind⟩
      · exact ⟨idle, stays _ clean⟩
      · split
        · exact ⟨idle, stays _ clean⟩
        · exact ⟨idle, trivial⟩
  | blocked dir logical queue links =>
    unfold step
    dsimp only
    split
    · exact ⟨idle, keeps_restart (clean_tail keeps.1)⟩
    · exact ⟨idle, trivial⟩
  | missing dir logical queue links =>
    obtain ⟨clean, held, trod⟩ := keeps
    unfold step
    dsimp only
    cases created : create kernel system dir (queue.headD []) .directory with
    | error code =>
      dsimp only
      split
      · exact ⟨idle, clean, held, trod.more⟩
      · exact ⟨idle, trivial⟩
    | ok made =>
      have tampered := (create_change held created).1.tampered sound
      exact ⟨tampered, clean, held_tampered tampered held, trod.more⟩
  | following dir logical queue links =>
    unfold step
    dsimp only
    split
    · exact ⟨idle, keeps_restart clean_nil⟩
    · exact ⟨idle, trivial⟩
  | ended outcome =>
    refine ⟨idle, ?_⟩
    cases outcome with
    | error trouble => exact trivial
    | ok located => exact ⟨keeps.1, keeps.2.1, keeps.2.2.more⟩

/-- In every run the walk holds what it should. -/
theorem run_keeps {start : System} {requested : List Char} (sound : start.Sound root)
    {past : List System} {config : Config}
    (run : Run kernel root realRoot options start requested past config) :
    config.system.Sound root ∧ config.system ∈ past ∧
      Keeps root past config.system config.walk := by
  induction run with
  | begins => exact ⟨sound, mem_singleton.mpr rfl, trivial⟩
  | @moves past config next _ moved inductionHypothesis =>
    obtain ⟨sound', present, keeps⟩ := inductionHypothesis
    have latest : next.system ∈ past ++ [next.system] :=
      mem_append_right _ (mem_singleton.mpr rfl)
    cases moved with
    | call _ =>
      obtain ⟨tampered, kept⟩ := keeps_step sound' present keeps
      exact ⟨tampered.sound sound', latest, kept⟩
    | fails code _ =>
      refine ⟨sound', latest, ?_⟩
      show Keeps root _ _ (refused code config.walk)
      cases config.walk <;> exact trivial
    | tampers after change =>
      have tampered := change.tampered sound'
      exact ⟨tampered.sound sound', latest, keeps_tampered tampered keeps⟩

/-! ### What is done through it -/

/-- A file that is opened through what was located is one of the directory's, which is below the
root. -/
theorem openFile_inside (sound : system.Sound root) {located : Located}
    (held : Held root system located.dir) {flags : Flags} {inode : Inode}
    (opened : (openFile kernel system located flags).2 = .ok inode) :
    (openFile kernel system located flags).1.kind inode = some .file ∧
      (openFile kernel system located flags).1.entries located.dir located.name = some inode ∧
      (openFile kernel system located flags).1.Below root located.dir := by
  unfold openFile at opened ⊢
  cases found : seen kernel system located.dir located.name with
  | none =>
    rw [found] at opened
    dsimp only at opened ⊢
    by_cases creates : flags.create = true
    · rw [if_pos creates] at opened ⊢
      cases created : create kernel system located.dir located.name .file with
      | error code =>
        rw [created] at opened
        cases opened
      | ok made =>
        rw [created] at opened
        cases opened
        obtain ⟨change, same⟩ := create_change held created
        have kind : made.1.kind made.2 = some .file := by
          rw [same]
          exact Function.update_self _ _ _
        have named : made.1.entries located.dir located.name = some made.2 := by
          rw [same]
          exact FileSystem.withEntry_self _ _ _ _
        have tampered := change.tampered sound
        exact ⟨kind, named, held_entry (tampered.sound sound) (held_tampered tampered held) named⟩
    · rw [if_neg creates] at opened
      cases opened
  | some what =>
    rw [found] at opened
    dsimp only at opened ⊢
    by_cases refuses : (flags.create && flags.exclusive) = true
    · rw [if_pos refuses] at opened
      cases opened
    · rw [if_neg refuses] at opened ⊢
      cases what with
      | link target => cases opened
      | directory child =>
        dsimp only at opened
        split at opened
        · cases opened
        · cases opened
      | other other =>
        dsimp only at opened ⊢
        by_cases file : system.kind other = some .file
        · rw [if_pos file] at opened ⊢
          cases opened
          have named := seen_other found
          exact ⟨file, named, held_entry sound held named⟩
        · rw [if_neg file] at opened
          cases opened

/-- The directory that what is done is given is the one that is held, or one that it names. -/
theorem withDirectory_inside (sound : system.Sound root) {located : Located}
    (held : Held root system located.dir) (up : located.name ≠ dots) {inode : Inode}
    (used : withDirectory kernel system located = .ok inode) :
    (located.name = [] ∨ located.name = ['.']) ∧ inode = located.dir ∨
      system.kind inode = some .directory ∧
        system.entries located.dir located.name = some inode ∧ system.Below root inode := by
  unfold withDirectory at used
  split at used
  · next bare =>
    cases used
    exact Or.inl ⟨Or.inl bare, rfl⟩
  · split at used
    · cases used
    · split at used <;> cases used
    · cases used
    · next child found =>
      cases used
      obtain ⟨here, same⟩ | ⟨named, kind⟩ := seen_directory up found
      · exact Or.inl ⟨Or.inr here, same⟩
      · exact Or.inr ⟨kind, named,
          (held_entry sound held named).tail ⟨⟨_, named⟩, kind⟩⟩

end

/-! ### The walk ends -/

section
variable (kernel : Kernel) (root : Inode) (realRoot : Place) (options : Options)

/-- The file system and the walk after one call more, when nobody else changes the tree. -/
def advance (pair : System × Walk) : System × Walk :=
  step kernel root realRoot options pair.1 pair.2

/-- A walk that ends when nobody else changes the tree. -/
def Ends (pair : System × Walk) : Prop :=
  ∃ count outcome,
    (Nat.iterate (advance kernel root realRoot options) count pair).2 = .ended outcome

variable {kernel root realRoot options}

theorem ends_now (system : System) (outcome : Except Trouble Located) :
    Ends kernel root realRoot options (system, .ended outcome) :=
  ⟨0, outcome, rfl⟩

theorem ends_step {pair next : System × Walk}
    (answered : advance kernel root realRoot options pair = next)
    (ends : Ends kernel root realRoot options next) :
    Ends kernel root realRoot options pair := by
  obtain ⟨count, outcome, ended⟩ := ends
  refine ⟨count + 1, outcome, ?_⟩
  rw [Function.iterate_succ_apply, answered]
  exact ended

theorem ends_restart {links : Nat}
    (later : links < maxLinks → ∀ system queue,
      Ends kernel root realRoot options (system, .opening queue (links + 1)))
    (system : System) (logical : List Name) (target : List Char) (rest : List Name) :
    Ends kernel root realRoot options (system, restart realRoot logical target rest links) := by
  unfold restart
  split
  · exact ends_now system _
  · next few =>
    cases afterLink logical target realRoot with
    | error trouble => exact ends_now system _
    | ok parts => exact later (by omega) system _

/-- What is made where nothing was is there afterwards. -/
theorem create_ends {system : System} {dir : Inode} {name : Name}
    (free : seen kernel system dir name = none) :
    (∃ made inode, create kernel system dir name .directory = .ok (made, inode) ∧
      seen kernel made dir name = some (.directory inode)) ∨
    ∃ code, create kernel system dir name .directory = .error code ∧ code ≠ "EEXIST" := by
  have absent : ¬(seen kernel system dir name).isSome = true := by
    rw [free]
    exact Bool.false_ne_true
  unfold create
  rw [if_neg absent]
  split
  · exact Or.inr ⟨_, rfl, by decide⟩
  · split
    · exact Or.inr ⟨_, rfl, by decide⟩
    · next inode _ =>
      refine Or.inl ⟨_, inode, rfl, ?_⟩
      unfold seen at free ⊢
      split at free
      · cases free
      · next solid =>
        rw [if_neg solid]
        split at free
        · cases free
        · next apart =>
          rw [if_neg apart]
          split at free
          · cases free
          · next below =>
            rw [if_neg below, FileSystem.withEntry_self, map_some]
            rw [FileSystem.withEntry_kind, show (system.withInode inode .directory).kind inode =
              some .directory from Function.update_self _ _ _]

/-- A component that is missing is made and then walked, or refused. -/
theorem ends_missing {system : System} {dir : Inode} {name : Name} {queue : List Name}
    {links : Nat} (free : seen kernel system dir name = none)
    (onward : ∀ system dir logical,
      Ends kernel root realRoot options (system, .walking dir logical queue links))
    (logical : List Name) :
    Ends kernel root realRoot options (system, .walking dir logical (name :: queue) links) := by
  cases queue with
  | nil =>
    refine ends_step ?_ (ends_now system (.ok ⟨dir, name, logical⟩))
    unfold advance step
    dsimp only
    rw [free]
  | cons next rest =>
    by_cases creates : options.create = true
    · have makes : Ends kernel root realRoot options
          (system, .missing dir logical (name :: next :: rest) links) := by
        obtain ⟨made, inode, created, there⟩ | ⟨code, refusal, other⟩ := create_ends free
        · have opens : Ends kernel root realRoot options
              (made, .walking dir logical (name :: next :: rest) links) := by
            refine ends_step ?_ (onward made inode (logical ++ [name]))
            unfold advance step
            dsimp only
            rw [there]
          refine ends_step ?_ opens
          unfold advance step
          dsimp only [headD_cons]
          rw [created]
        · refine ends_step ?_ (ends_now system (.error (.system code)))
          unfold advance step
          dsimp only [headD_cons]
          rw [refusal]
          dsimp only
          rw [if_neg other]
      refine ends_step ?_ makes
      unfold advance step
      dsimp only
      rw [free]
      dsimp only
      rw [if_pos creates]
    · refine ends_step ?_ (ends_now system (.error .noDirectory))
      unfold advance step
      dsimp only
      rw [free]
      dsimp only
      rw [if_neg creates]

/-- A component that is there is walked through, followed, handed over or refused. -/
theorem ends_present {system : System} {dir : Inode} {name : Name} {queue : List Name}
    {links : Nat} {what : Seen}
    (later : links < maxLinks → ∀ system queue,
      Ends kernel root realRoot options (system, .opening queue (links + 1)))
    (found : seen kernel system dir name = some what)
    (onward : ∀ system dir logical,
      Ends kernel root realRoot options (system, .walking dir logical queue links))
    (logical : List Name) :
    Ends kernel root realRoot options (system, .walking dir logical (name :: queue) links) := by
  have blocked : Ends kernel root realRoot options
      (system, .blocked dir logical (name :: queue) links) := by
    cases what with
    | link target =>
      refine ends_step ?_ (ends_restart later system logical target queue)
      unfold advance step
      dsimp only [headD_cons, tail_cons]
      rw [found]
    | _ =>
      refine ends_step ?_ (ends_now system (.error .notDirectory))
      unfold advance step
      dsimp only [headD_cons]
      rw [found]
  cases queue with
  | nil =>
    cases what with
    | link target =>
      have follows : Ends kernel root realRoot options
          (system, .following dir logical [name] links) := by
        refine ends_step ?_ (ends_restart later system logical target [])
        unfold advance step
        dsimp only [headD_cons]
        rw [found]
      by_cases followed : options.followLast = true
      · refine ends_step ?_ follows
        unfold advance step
        dsimp only
        rw [found]
        dsimp only
        rw [if_pos followed]
      · refine ends_step ?_ (ends_now system (.ok ⟨dir, name, logical⟩))
        unfold advance step
        dsimp only
        rw [found]
        dsimp only
        rw [if_neg followed]
    | _ =>
      refine ends_step ?_ (ends_now system (.ok ⟨dir, name, logical⟩))
      unfold advance step
      dsimp only
      rw [found]
  | cons next rest =>
    cases what with
    | directory child =>
      refine ends_step ?_ (onward system child (logical ++ [name]))
      unfold advance step
      dsimp only
      rw [found]
    | _ =>
      refine ends_step ?_ blocked
      unfold advance step
      dsimp only
      rw [found]

theorem ends_walking {links : Nat}
    (later : links < maxLinks → ∀ system queue,
      Ends kernel root realRoot options (system, .opening queue (links + 1)))
    (queue : List Name) (system : System) (dir : Inode) (logical : List Name) :
    Ends kernel root realRoot options (system, .walking dir logical queue links) := by
  induction queue generalizing system dir logical with
  | nil => exact ends_step rfl (ends_now system _)
  | cons name queue inductionHypothesis =>
    cases found : seen kernel system dir name with
    | none => exact ends_missing found inductionHypothesis logical
    | some what => exact ends_present later found inductionHypothesis logical

/-- Whatever the tree is like, a walk in a tree that nobody else changes ends. -/
theorem ends_opening (room : Nat) (links : Nat) (few : maxLinks - links ≤ room) (system : System)
    (queue : List Name) : Ends kernel root realRoot options (system, .opening queue links) := by
  induction room generalizing links system queue with
  | zero =>
    refine ends_step rfl (ends_walking (fun more => ?_) queue system root [])
    omega
  | succ room inductionHypothesis =>
    refine ends_step rfl (ends_walking (fun more system queue => ?_) queue system root [])
    exact inductionHypothesis (links + 1) (by omega) system queue

end

/-- The agent's walk cannot be led outside. Whatever the game's process does to the tree between
the calls, as long as it moves nothing out of it, the directory that the walk hands over was
reached from the server's root through real directories, and lies below it unless it was removed
meanwhile; the name it hands over is one component and no step up; a file that is opened through it
is one of that directory's, and what a directory is used for is done to that directory or to one it
names. When nobody else changes the tree, the walk ends. -/
theorem locate_stays_beneath (kernel : Kernel) (root : Inode) (realRoot : Place)
    (options : Options) (start : System) (requested : List Char) (sound : start.Sound root) :
    (∀ past config, Run kernel root realRoot options start requested past config →
      ∀ located, config.walk = .ended (.ok located) →
        Trod root past located.logical located.dir ∧
        (config.system.Below root located.dir ∨ config.system.removed located.dir = true) ∧
        ('/' ∉ located.name ∧ located.name ≠ dots) ∧
        (∀ flags inode, (openFile kernel config.system located flags).2 = .ok inode →
          (openFile kernel config.system located flags).1.kind inode = some .file ∧
          (openFile kernel config.system located flags).1.entries located.dir located.name =
            some inode ∧
          (openFile kernel config.system located flags).1.Below root located.dir) ∧
        ∀ inode, withDirectory kernel config.system located = .ok inode →
          (located.name = [] ∨ located.name = ['.']) ∧ inode = located.dir ∨
            config.system.kind inode = some .directory ∧
              config.system.entries located.dir located.name = some inode ∧
              config.system.Below root inode) ∧
    ∃ count outcome,
      (Nat.iterate (advance kernel root realRoot options) count (start, .arriving requested)).2 =
        .ended outcome := by
  refine ⟨?_, ?_⟩
  · intro past config run located handed
    obtain ⟨sound', _, keeps⟩ := run_keeps sound run
    rw [handed] at keeps
    obtain ⟨⟨single, up⟩, held, trod⟩ := keeps
    exact ⟨trod, held.below, ⟨single, up⟩,
      fun flags inode opened => openFile_inside sound' held opened,
      fun inode used => withDirectory_inside sound' held up used⟩
  · show Ends kernel root realRoot options (start, .arriving requested)
    cases taken : partsOf requested with
    | error trouble =>
      refine ends_step ?_ (ends_now start (.error trouble))
      unfold advance step
      dsimp only
      rw [taken]
    | ok queue =>
      refine ends_step ?_ (ends_opening (maxLinks - 0) 0 (Nat.le_refl _) start queue)
      unfold advance step
      dsimp only
      rw [taken]

namespace Sample

/-- A kernel that numbers its inodes. -/
def kernel : Kernel where
  pathOf _ _ := "/srv".toList
  above _ inode := inode
  toldAsLink := false
  fresh system := if system.kind 7 = none then some 7 else none
  isFresh system inode fresh := by
    split at fresh
    · next free =>
      cases fresh
      exact free
    · cases fresh

def realRoot : Place := ⟨["srv".toList], by decide⟩

/-- A root with one directory in it. -/
def system : System where
  kind inode := if inode = 0 ∨ inode = 1 then some .directory else none
  entries inode name := if inode = 0 ∧ name = "a".toList then some 1 else none
  removed _ := false

/-- The directory renamed, and a link out of the root made in its place. -/
def renamed : System :=
  (system.withEntry 0 "a".toList none).withEntry 0 "b".toList (some 1)

def swapped : System :=
  (renamed.withInode 2 (.link "/etc".toList)).withEntry 0 "a".toList (some 2)

theorem system_sound : system.Sound 0 :=
  ⟨rfl, rfl, fun _ removed => absurd removed Bool.false_ne_true⟩

theorem renamed_change : Change 0 system renamed := by
  refine Change.rename 0 _ 0 _ 1 Relation.ReflTransGen.refl Relation.ReflTransGen.refl rfl rfl
    (by decide) fun _ below => ?_
  have alone : ∀ inode, system.Below 1 inode → inode = 1 := by
    intro inode below
    induction below with
    | refl => rfl
    | tail _ child same =>
      obtain ⟨⟨name, named⟩, _⟩ := child
      rw [same] at named
      cases named
  exact absurd (alone 0 below) (by decide)

theorem swapped_change : Change 0 renamed swapped :=
  Change.make 0 _ 2 _ Relation.ReflTransGen.refl rfl (by decide) rfl

/-- The walk to a new file in the directory, which is swapped for a link when it was opened. -/
theorem swapped_run :
    ∃ past, Run kernel 0 realRoot ⟨false, true⟩ system "a/new".toList past
      ⟨swapped, .ended (.ok ⟨1, "new".toList, ["a".toList]⟩)⟩ := by
  have taken : partsOf "a/new".toList = .ok ["a".toList, "new".toList] := by decide +kernel
  have asked : Moves kernel 0 realRoot ⟨false, true⟩ ⟨system, .arriving "a/new".toList⟩
      ⟨system, .opening ["a".toList, "new".toList] 0⟩ := by
    refine moves_call rfl ?_
    unfold step
    dsimp only
    rw [taken]
  have arrived : Moves kernel 0 realRoot ⟨false, true⟩
      ⟨system, .opening ["a".toList, "new".toList] 0⟩
      ⟨system, .walking 0 [] ["a".toList, "new".toList] 0⟩ := moves_call rfl rfl
  have entered : Moves kernel 0 realRoot ⟨false, true⟩
      ⟨system, .walking 0 [] ["a".toList, "new".toList] 0⟩
      ⟨system, .walking 1 ["a".toList] ["new".toList] 0⟩ := moves_call rfl rfl
  have handed : Moves kernel 0 realRoot ⟨false, true⟩
      ⟨swapped, .walking 1 ["a".toList] ["new".toList] 0⟩
      ⟨swapped, .ended (.ok ⟨1, "new".toList, ["a".toList]⟩)⟩ := moves_call rfl rfl
  exact ⟨_, (((((Run.begins.moves asked).moves arrived).moves entered).moves
    (Moves.tampers _ renamed renamed_change)).moves
    (Moves.tampers _ swapped swapped_change)).moves handed⟩

end Sample

/-- A directory that is swapped for a link while it is held is handed over all the same, and the
file that is made through it is made in the directory. -/
theorem locate_stays_beneath_swapped :
    (openFile Sample.kernel Sample.swapped ⟨1, "new".toList, ["a".toList]⟩
      ⟨true, true, false⟩).2 = .ok 7 ∧
    (openFile Sample.kernel Sample.swapped ⟨1, "new".toList, ["a".toList]⟩
      ⟨true, true, false⟩).1.Below 0 1 := by
  have opened : (openFile Sample.kernel Sample.swapped ⟨1, "new".toList, ["a".toList]⟩
      ⟨true, true, false⟩).2 = .ok 7 := rfl
  obtain ⟨past, run⟩ := Sample.swapped_run
  obtain ⟨_, _, _, files, _⟩ := (locate_stays_beneath Sample.kernel 0 Sample.realRoot ⟨false, true⟩
    Sample.system "a/new".toList Sample.system_sound).1 past _ run _ rfl
  exact ⟨opened, (files ⟨true, true, false⟩ 7 opened).2.2⟩

end Geeboard.Beneath
