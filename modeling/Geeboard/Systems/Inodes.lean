/-
This file is about file systems as a kernel sees them: inodes, and directories that
give names to inodes. A directory that was opened is held by its inode, whatever its
names do meanwhile.

A process that may write in a tree makes, links, removes, renames and exchanges
entries of its directories. None of that takes a directory out of the tree: what was
below the tree's root is below it afterwards, or was removed, and nothing is ever
found or made in a directory that was removed.
-/

import Mathlib.Logic.Function.Basic
import Mathlib.Logic.Relation

namespace Inodes

open Option Function

/-! ### File systems -/

/-- What an inode is. -/
inductive Kind (Target : Type) where
  | directory
  | file
  | link (target : Target)
  | special
  deriving DecidableEq

/-- The inodes there are, what the directories name, and which directories were removed while
something may still hold them. -/
structure FileSystem (Inode Name Target : Type) where
  kind : Inode → Option (Kind Target)
  entries : Inode → Name → Option Inode
  removed : Inode → Bool

namespace FileSystem

section
variable {Inode Name Target : Type} (system : FileSystem Inode Name Target)

/-- A directory named by another. -/
def Child (directory child : Inode) : Prop :=
  (∃ name, system.entries directory name = some child) ∧
    system.kind child = some .directory

/-- A directory that directories lead to. -/
def Below : Inode → Inode → Prop :=
  Relation.ReflTransGen system.Child

/-- A directory with no entries. -/
def Empty (directory : Inode) : Prop :=
  ∀ name, system.entries directory name = none

/-- What a kernel keeps to: the root stands, and a directory that was removed is empty. -/
structure Sound (root : Inode) : Prop where
  stands : system.kind root = some .directory
  kept : system.removed root = false
  bare : ∀ directory, system.removed directory = true → system.Empty directory

end

section
variable {Inode Name Target : Type} [DecidableEq Inode] [DecidableEq Name]

/-- The entry of a directory set to something. -/
def withEntry (system : FileSystem Inode Name Target) (directory : Inode) (name : Name)
    (entry : Option Inode) : FileSystem Inode Name Target :=
  { system with
    entries := fun other name' =>
      if other = directory ∧ name' = name then entry else system.entries other name' }

/-- A new inode, empty if it is a directory. -/
def withInode (system : FileSystem Inode Name Target) (inode : Inode) (kind : Kind Target) :
    FileSystem Inode Name Target where
  kind := Function.update system.kind inode (some kind)
  entries := Function.update system.entries inode fun _ => none
  removed := Function.update system.removed inode false

/-- An inode that lost its name: a directory is removed with it. -/
def unlinked (system : FileSystem Inode Name Target) (inode : Inode) :
    FileSystem Inode Name Target :=
  match system.kind inode with
  | some .directory => { system with removed := Function.update system.removed inode true }
  | _ => system

end

end FileSystem

/-! ### What a process in a tree can do -/

section
variable {Inode Name Target : Type} [DecidableEq Inode] [DecidableEq Name]

open FileSystem

/-- An entry that may be made to name nothing any more: it is not the root, and if it is a
directory it is empty. -/
def Loose (root : Inode) (system : FileSystem Inode Name Target) (inode : Inode) : Prop :=
  inode ≠ root ∧ (system.kind inode = some .directory → system.Empty inode)

/-- One change of entries of directories in the tree below a root. A directory is not moved into
itself or what is below it. -/
inductive Change (root : Inode) (system : FileSystem Inode Name Target) :
    FileSystem Inode Name Target → Prop where
  | make (directory : Inode) (name : Name) (inode : Inode) (kind : Kind Target)
      (inside : system.Below root directory) (open' : system.removed directory = false)
      (free : system.entries directory name = none) (fresh : system.kind inode = none) :
      Change root system ((system.withInode inode kind).withEntry directory name (some inode))
  | link (directory : Inode) (name : Name) (inode : Inode)
      (inside : system.Below root directory) (open' : system.removed directory = false)
      (free : system.entries directory name = none)
      (plain : system.kind inode ≠ some .directory) :
      Change root system (system.withEntry directory name (some inode))
  | remove (directory : Inode) (name : Name) (inode : Inode)
      (inside : system.Below root directory)
      (named : system.entries directory name = some inode) (loose : Loose root system inode) :
      Change root system ((system.unlinked inode).withEntry directory name none)
  | rename (directory : Inode) (name : Name) (target : Inode) (name' : Name) (inode : Inode)
      (inside : system.Below root directory) (inside' : system.Below root target)
      (open' : system.removed target = false)
      (named : system.entries directory name = some inode)
      (free : system.entries target name' = none)
      (apart : system.kind inode = some .directory → ¬system.Below inode target) :
      Change root system
        ((system.withEntry directory name none).withEntry target name' (some inode))
  | replace (directory : Inode) (name : Name) (target : Inode) (name' : Name)
      (inode replaced : Inode)
      (inside : system.Below root directory) (inside' : system.Below root target)
      (named : system.entries directory name = some inode)
      (taken : system.entries target name' = some replaced)
      (loose : Loose root system replaced) (differs : inode ≠ replaced)
      (apart : system.kind inode = some .directory → ¬system.Below inode target) :
      Change root system
        (((system.unlinked replaced).withEntry directory name none).withEntry target name'
          (some inode))
  | exchange (directory : Inode) (name : Name) (target : Inode) (name' : Name)
      (inode other : Inode)
      (inside : system.Below root directory) (inside' : system.Below root target)
      (named : system.entries directory name = some inode)
      (named' : system.entries target name' = some other)
      (apart : system.kind inode = some .directory →
        ¬system.Below inode target ∧ ¬system.Below inode directory)
      (apart' : system.kind other = some .directory →
        ¬system.Below other target ∧ ¬system.Below other directory) :
      Change root system
        ((system.withEntry directory name (some other)).withEntry target name' (some inode))

/-- What such changes leave as it was: an inode stays what it is, a directory that was removed
stays so, and a directory below the root stays below it or is removed. -/
structure Tampered (root : Inode) (before after : FileSystem Inode Name Target) : Prop where
  kinds : ∀ inode kind, before.kind inode = some kind → after.kind inode = some kind
  removed : ∀ inode, before.kind inode ≠ none → before.removed inode = true →
    after.removed inode = true
  sound : before.Sound root → after.Sound root
  below : ∀ inode, before.Below root inode → after.Below root inode ∨ after.removed inode = true

end

/-! ### What stays below the root -/

section
variable {Inode Name Target : Type} {root : Inode} {before after : FileSystem Inode Name Target}

open FileSystem

variable {moved : Inode → Prop} {inode : Inode}

theorem below_kind (stands : before.kind root = some .directory) (below : before.Below root inode) :
    before.kind inode = some .directory := by
  induction below with
  | refl => exact stands
  | tail _ child _ => exact child.2

/-- A change that keeps the entries of directories which are not moved, and removes only what is
empty. -/
structure Keeps (before after : FileSystem Inode Name Target) (moved : Inode → Prop) : Prop where
  kinds : ∀ inode kind, before.kind inode = some kind → after.kind inode = some kind
  bare : ∀ inode, before.kind inode = some .directory → after.removed inode = true →
    before.Empty inode
  entries : ∀ directory name inode, before.kind directory = some .directory →
    before.entries directory name = some inode → before.kind inode = some .directory →
      ¬moved inode → after.entries directory name = some inode ∨ after.removed inode = true

/-- A directory named by one that stays below the root stays so too, or is removed. -/
theorem Keeps.child (keeps : Keeps before after moved) {directory : Inode}
    (kind : before.kind directory = some .directory) (child : before.Child directory inode)
    (unmoved : ¬moved inode) (above : after.Below root directory ∨ after.removed directory = true) :
    after.Below root inode ∨ after.removed inode = true := by
  obtain ⟨⟨name, named⟩, isDirectory⟩ := child
  obtain stays | gone := above
  · obtain entry | removed := keeps.entries directory name inode kind named isDirectory unmoved
    · exact Or.inl (stays.tail ⟨⟨name, entry⟩, keeps.kinds inode _ isDirectory⟩)
    · exact Or.inr removed
  · rw [keeps.bare directory kind gone name] at named
    exact absurd named (some_ne_none inode).symm

/-- The directories that are not moved, nor below one that is, stay below the root. -/
theorem Keeps.below_apart (keeps : Keeps before after moved)
    (stands : before.kind root = some .directory) (below : before.Below root inode)
    (apart : ∀ other, moved other → ¬before.Below other inode) :
    after.Below root inode ∨ after.removed inode = true := by
  induction below with
  | refl => exact Or.inl Relation.ReflTransGen.refl
  | @tail directory inode leads child inductionHypothesis =>
    exact keeps.child (below_kind stands leads) child
      (fun isMoved => apart inode isMoved Relation.ReflTransGen.refl)
      (inductionHypothesis fun other isMoved above => apart other isMoved (above.tail child))

/-- If the directories that are moved arrive below the root, all that was below it stays so or is
removed. -/
theorem Keeps.below (keeps : Keeps before after moved) (stands : before.kind root = some .directory)
    (arrives : ∀ inode, moved inode → before.kind inode = some .directory →
      after.Below root inode) (below : before.Below root inode) :
    after.Below root inode ∨ after.removed inode = true := by
  induction below with
  | refl => exact Or.inl Relation.ReflTransGen.refl
  | @tail directory inode leads child above =>
    by_cases isMoved : moved inode
    · exact Or.inl (arrives inode isMoved child.2)
    · exact keeps.child (below_kind stands leads) child isMoved above

theorem Keeps.tampered (keeps : Keeps before after moved) (sound : before.Sound root)
    (removed : ∀ inode, before.kind inode ≠ none → before.removed inode = true →
      after.removed inode = true) (kept : after.removed root = false)
    (bare : ∀ inode, after.removed inode = true → after.Empty inode)
    (arrives : ∀ inode, moved inode → before.kind inode = some .directory →
      after.Below root inode) : Tampered root before after :=
  ⟨keeps.kinds, removed, fun _ => ⟨keeps.kinds root _ sound.stands, kept, bare⟩,
    fun _ below => keeps.below sound.stands arrives below⟩

/-- Two things that one name cannot name at once. -/
theorem named_apart {directory other : Inode} {name name' : Name} {entry : Option Inode}
    (named : before.entries directory name = some inode) (here : before.entries other name' = entry)
    (differs : entry ≠ some inode) :
    ¬(directory = other ∧ name = name') := by
  rintro ⟨rfl, rfl⟩
  exact differs (here.symm.trans named)

/-- A directory that took in another arrives where it was moved to. -/
theorem arrives_at (keeps : Keeps before after moved) (sound : before.Sound root) {target : Inode}
    {name : Name} (inside : before.Below root target)
    (apart : ∀ other, moved other → ¬before.Below other target)
    (open' : after.removed target = false) (named : after.entries target name = some inode)
    (kind : before.kind inode = some .directory) : after.Below root inode := by
  obtain stays | gone := keeps.below_apart sound.stands inside apart
  · exact stays.tail ⟨⟨name, named⟩, keeps.kinds inode _ kind⟩
  · exact absurd (open'.symm.trans gone) Bool.false_ne_true

end

/-! ### What the changes do to a file system -/

namespace FileSystem

section
variable {Inode Name Target : Type} [DecidableEq Inode] (system : FileSystem Inode Name Target)

@[simp] theorem unlinked_kind (inode : Inode) : (system.unlinked inode).kind = system.kind := by
  unfold unlinked
  split <;> rfl

@[simp] theorem unlinked_entries (inode : Inode) :
    (system.unlinked inode).entries = system.entries := by
  unfold unlinked
  split <;> rfl

theorem unlinked_removed (inode other : Inode) :
    (system.unlinked inode).removed other = true ↔
      system.removed other = true ∨ other = inode ∧ system.kind inode = some .directory := by
  unfold unlinked
  split
  · next kind =>
    show Function.update system.removed inode true other = true ↔ _
    by_cases same : other = inode
    · rw [same, update_self]
      exact iff_of_true rfl (Or.inr ⟨rfl, kind⟩)
    · rw [update_of_ne same]
      exact ⟨Or.inl, fun either => either.resolve_right fun both => same both.1⟩
  · next plain =>
    exact ⟨Or.inl, fun either => either.resolve_right fun both => plain both.2⟩

/-- What is removed once something that is loose has lost its name is empty, and not the root. -/
theorem unlinked_bare {system : FileSystem Inode Name Target} {root : Inode}
    (sound : system.Sound root) {inode : Inode} (loose : Loose root system inode)
    {other : Inode} (gone : (system.unlinked inode).removed other = true) :
    system.Empty other ∧ other ≠ root := by
  obtain before | ⟨rfl, kind⟩ := (unlinked_removed system inode other).mp gone
  · refine ⟨sound.bare other before, ?_⟩
    rintro rfl
    exact absurd (sound.kept.symm.trans before) Bool.false_ne_true
  · exact ⟨loose.2 kind, loose.1⟩

variable [DecidableEq Name]

@[simp] theorem withEntry_kind (directory : Inode) (name : Name) (entry : Option Inode) :
    (system.withEntry directory name entry).kind = system.kind := rfl

theorem withEntry_self (directory : Inode) (name : Name) (entry : Option Inode) :
    (system.withEntry directory name entry).entries directory name = entry :=
  if_pos ⟨rfl, rfl⟩

theorem withEntry_other {directory other : Inode} {name name' : Name} (entry : Option Inode)
    (differs : ¬(other = directory ∧ name' = name)) :
    (system.withEntry directory name entry).entries other name' = system.entries other name' :=
  if_neg differs

theorem empty_withEntry {directory other : Inode} {name : Name} {entry : Option Inode}
    (empty : system.Empty other) (apart : other = directory → entry = none) :
    (system.withEntry directory name entry).Empty other := by
  intro name'
  by_cases here : other = directory ∧ name' = name
  · rw [here.1, here.2, withEntry_self]
    exact apart here.1
  · rw [withEntry_other system entry here]
    exact empty name'

end

end FileSystem

/-! ### One change -/

section
variable {Inode Name Target : Type} [DecidableEq Inode] [DecidableEq Name] {root : Inode}
  {system : FileSystem Inode Name Target}

open FileSystem

variable {directory inode : Inode}

theorem tampered_make (sound : system.Sound root) {name : Name} (kind : Kind Target)
    (open' : system.removed directory = false) (free : system.entries directory name = none)
    (fresh : system.kind inode = none) :
    Tampered root system ((system.withInode inode kind).withEntry directory name (some inode)) := by
  have old : ∀ other kind', system.kind other = some kind' → other ≠ inode := by
    rintro other kind' stands rfl
    rw [fresh] at stands
    exact absurd stands (some_ne_none kind').symm
  have kinds : ∀ other kind', system.kind other = some kind' →
      ((system.withInode inode kind).withEntry directory name (some inode)).kind other =
        some kind' := by
    intro other kind' stands
    rw [← stands]
    exact update_of_ne (old other kind' stands) _ _
  have removed : ∀ other,
      ((system.withInode inode kind).withEntry directory name (some inode)).removed other = true →
        other ≠ inode ∧ system.removed other = true := by
    intro other gone
    have gone' : Function.update system.removed inode false other = true := gone
    by_cases same : other = inode
    · rw [same, update_self] at gone'
      exact absurd gone' Bool.false_ne_true
    · rw [update_of_ne same] at gone'
      exact ⟨same, gone'⟩
  have keeps : Keeps system
      ((system.withInode inode kind).withEntry directory name (some inode)) fun _ => False := by
    refine ⟨kinds, fun other _ gone => sound.bare other (removed other gone).2, ?_⟩
    intro other name' child isDirectory named _ _
    refine Or.inl ?_
    rw [withEntry_other]
    · rw [← named]
      exact congrFun (update_of_ne (old other _ isDirectory) _ _) name'
    · rintro ⟨rfl, rfl⟩
      rw [free] at named
      exact absurd named (some_ne_none child).symm
  refine keeps.tampered sound ?_ ?_ ?_ fun _ impossible => absurd impossible not_false
  · intro other exists' gone
    obtain ⟨kind', stands⟩ := ne_none_iff_exists'.mp exists'
    show Function.update system.removed inode false other = true
    rw [update_of_ne (old other kind' stands)]
    exact gone
  · show Function.update system.removed inode false root = false
    rw [update_of_ne (old root _ sound.stands)]
    exact sound.kept
  · intro other gone
    obtain ⟨differs, gone'⟩ := removed other gone
    refine empty_withEntry _ ?_ ?_
    · intro name'
      rw [← sound.bare other gone' name']
      exact congrFun (update_of_ne differs _ _) name'
    · rintro rfl
      rw [open'] at gone'
      exact absurd gone' Bool.false_ne_true

theorem tampered_link (sound : system.Sound root) {name : Name}
    (open' : system.removed directory = false) (free : system.entries directory name = none) :
    Tampered root system (system.withEntry directory name (some inode)) := by
  have keeps : Keeps system (system.withEntry directory name (some inode)) fun _ => False := by
    refine ⟨fun _ _ stands => stands, fun other _ gone => sound.bare other gone, ?_⟩
    intro other name' child _ named _ _
    refine Or.inl ?_
    rw [withEntry_other system _ (named_apart named free (some_ne_none child).symm)]
    exact named
  refine keeps.tampered sound (fun _ _ gone => gone) sound.kept ?_
    fun _ impossible => absurd impossible not_false
  intro other gone
  refine empty_withEntry system (sound.bare other gone) ?_
  rintro rfl
  exact absurd (open'.symm.trans gone) Bool.false_ne_true

theorem tampered_remove (sound : system.Sound root) {name : Name}
    (named : system.entries directory name = some inode) (loose : Loose root system inode) :
    Tampered root system ((system.unlinked inode).withEntry directory name none) := by
  have keeps : Keeps system ((system.unlinked inode).withEntry directory name none)
      fun _ => False := by
    refine ⟨fun other kind stands => ?_, fun other _ gone => (unlinked_bare sound loose gone).1, ?_⟩
    · rw [withEntry_kind, unlinked_kind]
      exact stands
    · intro other name' child _ named' kind _
      by_cases here : other = directory ∧ name' = name
      · refine Or.inr ((unlinked_removed system inode child).mpr (Or.inr ?_))
        rw [here.1, here.2, named] at named'
        cases named'
        exact ⟨rfl, kind⟩
      · refine Or.inl ?_
        rw [withEntry_other _ _ here, unlinked_entries]
        exact named'
  refine keeps.tampered sound (fun other _ gone => ?_) ?_ ?_
    fun _ impossible => absurd impossible not_false
  · exact (unlinked_removed system inode other).mpr (Or.inl gone)
  · exact Bool.eq_false_iff.mpr fun gone => (unlinked_bare sound loose gone).2 rfl
  · intro other gone
    refine empty_withEntry _ ?_ fun _ => rfl
    intro name'
    rw [unlinked_entries]
    exact (unlinked_bare sound loose gone).1 name'

theorem tampered_rename (sound : system.Sound root) {target : Inode} {name name' : Name}
    (inside' : system.Below root target) (open' : system.removed target = false)
    (named : system.entries directory name = some inode) (free : system.entries target name' = none)
    (apart : system.kind inode = some .directory → ¬system.Below inode target) :
    Tampered root system
      ((system.withEntry directory name none).withEntry target name' (some inode)) := by
  have keeps : Keeps system
      ((system.withEntry directory name none).withEntry target name' (some inode))
      fun other => other = inode := by
    refine ⟨fun _ _ stands => stands, fun other _ gone => sound.bare other gone, ?_⟩
    intro other name'' child _ named' _ unmoved
    refine Or.inl ?_
    rw [withEntry_other _ _ (named_apart named' free (some_ne_none child).symm),
      withEntry_other _ _ (named_apart named' named fun same => unmoved (some.inj same).symm)]
    exact named'
  refine keeps.tampered sound (fun _ _ gone => gone) sound.kept ?_ ?_
  · intro other gone
    refine empty_withEntry _ (empty_withEntry system (sound.bare other gone) fun _ => rfl) ?_
    rintro rfl
    exact absurd (open'.symm.trans gone) Bool.false_ne_true
  · rintro other rfl kind
    exact arrives_at keeps sound inside' (fun _ same => same ▸ apart kind) open'
      (withEntry_self _ _ _ _) kind

theorem tampered_replace (sound : system.Sound root) {target replaced : Inode} {name name' : Name}
    (inside' : system.Below root target) (named : system.entries directory name = some inode)
    (taken : system.entries target name' = some replaced) (loose : Loose root system replaced)
    (apart : system.kind inode = some .directory → ¬system.Below inode target) :
    Tampered root system
      (((system.unlinked replaced).withEntry directory name none).withEntry target name'
        (some inode)) := by
  have open' : (system.unlinked replaced).removed target = false := by
    refine Bool.eq_false_iff.mpr fun gone => ?_
    rw [(unlinked_bare sound loose gone).1 name'] at taken
    exact absurd taken (some_ne_none replaced).symm
  have keeps : Keeps system
      (((system.unlinked replaced).withEntry directory name none).withEntry target name'
        (some inode)) fun other => other = inode := by
    refine ⟨fun other kind stands => ?_, fun other _ gone => (unlinked_bare sound loose gone).1, ?_⟩
    · rw [withEntry_kind, withEntry_kind, unlinked_kind]
      exact stands
    · intro other name'' child _ named' kind unmoved
      by_cases here : other = target ∧ name'' = name'
      · refine Or.inr ((unlinked_removed system replaced child).mpr (Or.inr ?_))
        rw [here.1, here.2, taken] at named'
        cases named'
        exact ⟨rfl, kind⟩
      · refine Or.inl ?_
        rw [withEntry_other _ _ here, withEntry_other _ _ (named_apart named' named
          fun same => unmoved (some.inj same).symm), unlinked_entries]
        exact named'
  refine keeps.tampered sound (fun other _ gone => ?_) ?_ ?_ ?_
  · exact (unlinked_removed system replaced other).mpr (Or.inl gone)
  · exact Bool.eq_false_iff.mpr fun gone => (unlinked_bare sound loose gone).2 rfl
  · intro other gone
    refine empty_withEntry _ (empty_withEntry _ (fun name'' => ?_) fun _ => rfl) ?_
    · rw [unlinked_entries]
      exact (unlinked_bare sound loose gone).1 name''
    · rintro rfl
      exact absurd (open'.symm.trans gone) Bool.false_ne_true
  · rintro other rfl kind
    exact arrives_at keeps sound inside' (fun _ same => same ▸ apart kind) open'
      (withEntry_self _ _ _ _) kind

theorem tampered_exchange (sound : system.Sound root) {target other : Inode} {name name' : Name}
    (inside : system.Below root directory) (inside' : system.Below root target)
    (named : system.entries directory name = some inode)
    (named' : system.entries target name' = some other)
    (apart : system.kind inode = some .directory →
      ¬system.Below inode target ∧ ¬system.Below inode directory)
    (apart' : system.kind other = some .directory →
      ¬system.Below other target ∧ ¬system.Below other directory) :
    Tampered root system
      ((system.withEntry directory name (some other)).withEntry target name' (some inode)) := by
  have open' : ∀ place name inode, system.entries place name = some inode →
      system.removed place = false := by
    intro place name inode named
    refine Bool.eq_false_iff.mpr fun gone => ?_
    rw [sound.bare place gone name] at named
    exact absurd named (some_ne_none inode).symm
  have keeps : Keeps system
      ((system.withEntry directory name (some other)).withEntry target name' (some inode))
      fun moved => (moved = inode ∨ moved = other) ∧ system.kind moved = some .directory := by
    refine ⟨fun _ _ stands => stands, fun place _ gone => sound.bare place gone, ?_⟩
    intro place name'' child _ named'' kind unmoved
    refine Or.inl ?_
    rw [withEntry_other _ _ (named_apart named'' named'
        fun same => unmoved ⟨Or.inr (some.inj same).symm, kind⟩),
      withEntry_other _ _ (named_apart named'' named
        fun same => unmoved ⟨Or.inl (some.inj same).symm, kind⟩)]
    exact named''
  have first : ((system.withEntry directory name (some other)).withEntry target name'
      (some inode)).entries directory name = some other := by
    by_cases same : directory = target ∧ name = name'
    · rw [← same.1, ← same.2, named] at named'
      rw [same.1, same.2, withEntry_self]
      exact named'
    · rw [withEntry_other _ _ same, withEntry_self]
  refine keeps.tampered sound (fun _ _ gone => gone) sound.kept ?_ ?_
  · intro place gone
    refine empty_withEntry _ (empty_withEntry system (sound.bare place gone) ?_) ?_
    · rintro rfl
      exact absurd ((open' _ _ _ named).symm.trans gone) Bool.false_ne_true
    · rintro rfl
      exact absurd ((open' _ _ _ named').symm.trans gone) Bool.false_ne_true
  · rintro moved ⟨rfl | rfl, kind⟩ _
    · refine arrives_at keeps sound inside' ?_ (open' _ _ _ named') (withEntry_self _ _ _ _) kind
      rintro there ⟨rfl | rfl, kind'⟩
      · exact (apart kind').1
      · exact (apart' kind').1
    · refine arrives_at keeps sound inside ?_ (open' _ _ _ named) first kind
      rintro there ⟨rfl | rfl, kind'⟩
      · exact (apart kind').2
      · exact (apart' kind').2

/-- A change takes nothing out of the tree. -/
theorem Change.tampered {after : FileSystem Inode Name Target} (sound : system.Sound root)
    (change : Change root system after) : Tampered root system after := by
  cases change with
  | make directory name inode kind _ open' free fresh =>
    exact tampered_make sound kind open' free fresh
  | link directory name inode _ open' free _ => exact tampered_link sound open' free
  | remove directory name inode _ named loose => exact tampered_remove sound named loose
  | rename directory name target name' inode _ inside' open' named free apart =>
    exact tampered_rename sound inside' open' named free apart
  | replace directory name target name' inode replaced _ inside' named taken loose _ apart =>
    exact tampered_replace sound inside' named taken loose apart
  | exchange directory name target name' inode other inside inside' named named' apart apart' =>
    exact tampered_exchange sound inside inside' named named' apart apart'

end

end Inodes
