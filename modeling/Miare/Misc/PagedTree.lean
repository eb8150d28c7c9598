import Miare.Misc.Keyed

/-!
# Search trees kept in pages

A store of pages is described by two relations: which values a leaf page has, and which children
an inner page lists, each with the key that separates it from its left neighbour.  `HoldsBy` says
that a page is the root of a search tree of some height with the given values, `Holds` that their
keys are in the linear order of the key type.
-/

namespace Miare.Misc

variable {κ ρ ν : Type*}

theorem exists_left_of_forall₂ {α β : Type*} {R : α → β → Prop} {left : List α} {right : List β}
    (all : List.Forall₂ R left right) {b : β} (member : b ∈ right) : ∃ a ∈ left, R a b := by
  induction all with
  | nil => cases member
  | cons related _ ih =>
    rcases List.mem_cons.1 member with rfl | later
    · exact ⟨_, List.mem_cons_self, related⟩
    · obtain ⟨a, inLeft, holds⟩ := ih later
      exact ⟨a, List.mem_cons_of_mem _ inLeft, holds⟩

theorem forall₂_append_split {α β : Type*} {R : α → β → Prop} {front back : List α}
    {right : List β} (all : List.Forall₂ R (front ++ back) right) :
    ∃ first second, right = first ++ second ∧ List.Forall₂ R front first ∧
      List.Forall₂ R back second := by
  induction front generalizing right with
  | nil => exact ⟨[], right, rfl, .nil, all⟩
  | cons a front ih =>
    cases all with
    | cons related rest =>
      obtain ⟨first, second, rfl, left, others⟩ := ih rest
      exact ⟨_ :: first, second, rfl, .cons related left, others⟩

/-- The pages of a store. -/
structure Pages (κ ρ ν : Type*) where
  leaf : ρ → List ν → Prop
  inner : Nat → ρ → List (κ × ρ) → Prop

/-- First key of a block of values. -/
def firstKey (key : ν → κ) (block : List ν) : Option κ := block.head?.map key

/-- The page is the root of a tree with these values, in the order `r`.  The first child of an
inner page has no separator; the separators of the others are the least keys below them. -/
def HoldsBy (r : κ → κ → Prop) (key : ν → κ) (pages : Pages κ ρ ν) : Nat → ρ → List ν → Prop
  | 0, page, values =>
    pages.leaf page values ∧ values ≠ [] ∧ values.Pairwise fun a b => r (key a) (key b)
  | level + 1, page, values =>
    ∃ children blocks, pages.inner (level + 1) page children ∧ children ≠ [] ∧
      List.Forall₂ (fun child block => HoldsBy r key pages level child.2 block) children blocks ∧
      List.Forall₂ (fun child block => firstKey key block = some child.1)
        children.tail blocks.tail ∧
      values = blocks.flatten ∧ values.Pairwise fun a b => r (key a) (key b)

variable {r : κ → κ → Prop} {key : ν → κ} {pages larger : Pages κ ρ ν} {level : Nat} {page : ρ}
  {values : List ν}

theorem HoldsBy.pairwise (holds : HoldsBy r key pages level page values) :
    values.Pairwise fun a b => r (key a) (key b) := by
  cases level with
  | zero => exact holds.2.2
  | succ level =>
    obtain ⟨children, blocks, -, -, -, -, -, ordered⟩ := holds
    exact ordered

theorem HoldsBy.ne_nil (holds : HoldsBy r key pages level page values) : values ≠ [] := by
  induction level generalizing page values with
  | zero => exact holds.2.1
  | succ level ih =>
    obtain ⟨children, blocks, -, some, below, -, rfl, -⟩ := holds
    cases below with
    | nil => exact absurd rfl some
    | cons first rest =>
      have := ih first
      simp [this]

/-- More pages hold at least the same trees. -/
theorem HoldsBy.mono (leaves : ∀ page values, pages.leaf page values → larger.leaf page values)
    (inners : ∀ level page children, pages.inner level page children →
      larger.inner level page children)
    (holds : HoldsBy r key pages level page values) : HoldsBy r key larger level page values := by
  induction level generalizing page values with
  | zero => exact ⟨leaves _ _ holds.1, holds.2⟩
  | succ level ih =>
    obtain ⟨children, blocks, isInner, some, below, separated, whole, increasing⟩ := holds
    exact ⟨children, blocks, inners _ _ _ isInner, some, below.imp fun _ _ => ih, separated,
      whole, increasing⟩

theorem firstKey_mem {block : List ν} {k : κ} (isFirst : firstKey key block = some k) :
    ∃ value ∈ block, key value = k := by
  cases block with
  | nil => cases isFirst
  | cons value rest => exact ⟨value, List.mem_cons_self, Option.some.inj isFirst⟩

theorem firstKey_append {front back : List ν} {k : κ} (isFirst : firstKey key front = some k) :
    firstKey key (front ++ back) = some k := by
  cases front with
  | nil => cases isFirst
  | cons value rest => exact isFirst

/-! ## Siblings -/

variable [LinearOrder κ]

/-- The page is the root of a search tree with these values. -/
abbrev Holds (key : ν → κ) (pages : Pages κ ρ ν) : Nat → ρ → List ν → Prop :=
  HoldsBy (· < ·) key pages

theorem Holds.increasing (holds : Holds key pages level page values) : Increasing key values :=
  HoldsBy.pairwise holds

/-- Sibling pages, each with the least key below it, and their values from left to right. -/
def Row (key : ν → κ) (pages : Pages κ ρ ν) (level : Nat) (children : List (κ × ρ))
    (values : List ν) : Prop :=
  ∃ blocks, List.Forall₂ (fun child block => Holds key pages level child.2 block ∧
    firstKey key block = some child.1) children blocks ∧ values = blocks.flatten

namespace Row

variable {children more : List (κ × ρ)} {child : κ × ρ} {others : List ν}

theorem nil : Row key pages level [] [] := ⟨[], .nil, rfl⟩

theorem single (holds : Holds key pages level child.2 values)
    (isFirst : firstKey key values = some child.1) : Row key pages level [child] values :=
  ⟨[values], .cons ⟨holds, isFirst⟩ .nil, by simp⟩

theorem holds_of_single (row : Row key pages level [child] values) :
    Holds key pages level child.2 values := by
  obtain ⟨blocks, all, rfl⟩ := row
  cases all with
  | cons both rest =>
    cases rest
    simpa using both.1

theorem append (left : Row key pages level children values)
    (right : Row key pages level more others) :
    Row key pages level (children ++ more) (values ++ others) := by
  obtain ⟨blocks, first, rfl⟩ := left
  obtain ⟨rest, second, rfl⟩ := right
  exact ⟨blocks ++ rest, List.rel_append first second, List.flatten_append.symm⟩

theorem cons (holds : Holds key pages level child.2 values)
    (isFirst : firstKey key values = some child.1) (rest : Row key pages level more others) :
    Row key pages level (child :: more) (values ++ others) :=
  (single holds isFirst).append rest

theorem split (row : Row key pages level (children ++ more) values) :
    ∃ front back, values = front ++ back ∧ Row key pages level children front ∧
      Row key pages level more back := by
  obtain ⟨blocks, all, rfl⟩ := row
  obtain ⟨first, second, rfl, left, right⟩ := forall₂_append_split all
  exact ⟨_, _, List.flatten_append, ⟨first, left, rfl⟩, ⟨second, right, rfl⟩⟩

theorem holds_mem (row : Row key pages level children values) (member : child ∈ children) :
    ∃ block, Holds key pages level child.2 block := by
  obtain ⟨blocks, all, rfl⟩ := row
  obtain ⟨block, -, holds, -⟩ := exists_left_of_forall₂ all.flip member
  exact ⟨block, holds⟩

theorem key_mem (row : Row key pages level children values) (member : child ∈ children) :
    ∃ value ∈ values, key value = child.1 := by
  obtain ⟨blocks, all, rfl⟩ := row
  obtain ⟨block, inBlocks, -, isFirst⟩ := exists_left_of_forall₂ all.flip member
  obtain ⟨value, inBlock, same⟩ := firstKey_mem isFirst
  exact ⟨value, List.mem_flatten.2 ⟨block, inBlocks, inBlock⟩, same⟩

theorem keys_increasing (row : Row key pages level children values)
    (increasing : Increasing key values) : Increasing Prod.fst children := by
  induction children generalizing values with
  | nil => exact List.Pairwise.nil
  | cons child rest ih =>
    obtain ⟨front, back, rfl, first, behind⟩ := @split _ _ _ _ _ _ _ _ [child] rest row
    obtain ⟨-, later, across⟩ := increasing_append.1 increasing
    refine increasing_cons.2 ⟨fun other member => ?_, ih behind later⟩
    obtain ⟨value, inFront, isFirst⟩ := first.key_mem (List.mem_singleton_self child)
    obtain ⟨greater, inBack, isOther⟩ := behind.key_mem member
    rw [← isFirst, ← isOther]
    exact across value inFront greater inBack

/-- An inner page over a row of siblings. -/
theorem inner {first : κ} {page : ρ} (row : Row key pages level (child :: more) values)
    (isInner : pages.inner (level + 1) page ((first, child.2) :: more))
    (increasing : Increasing key values) :
    Holds key pages (level + 1) page values ∧ firstKey key values = some child.1 := by
  obtain ⟨blocks, all, rfl⟩ := row
  cases all with
  | cons related rest =>
    rename_i block blocks
    refine ⟨⟨_, block :: blocks, isInner, List.cons_ne_nil _ _, .cons related.1 ?_, ?_, rfl,
      increasing⟩, ?_⟩
    · exact rest.imp fun _ _ both => both.1
    · exact rest.imp fun _ _ both => both.2
    · exact firstKey_append related.2

end Row

end Miare.Misc
