import Miare.Commit.Metadata
import Miare.Tree.Proofs.Fanout
import Miare.Tree.Store

/-!
# Trees that are written at once

The entries of a tree are cut into leaves, and level by level pages are put above them.  What a
loader finds below a page is a parameter here: with a rule for the leaves and one for the pages above
a row of pages, it finds the entries below the root, and reaches every page once.
-/

namespace Miare

open Misc

variable {σ ε : Type*} {L : Limits} {place : Placement σ} {written : σ → List MetadataExtent}

/-! ## What is written -/

/-- A placement that keeps a list of the pages it has placed, as `extents` does. -/
def Placement.Records (place : Placement σ) (written : σ → List MetadataExtent) : Prop :=
  ∀ state payload kind, written (place state payload kind).2 =
    written state ++ [{ reference := (place state payload kind).1, kind, payload }]

/-- The page was encoded, and is among the extents at the reference of the node. -/
def NodeOf (extents : List MetadataExtent) (kind : Nat) (encode : List ε → Option Bytes)
    (minimum : List ε → Bytes) (level : List ε → Nat) (page : List ε) (node : PreparedTreeNode) :
    Prop :=
  ∃ payload, encode page = some payload ∧
    { reference := node.reference, kind, payload } ∈ extents ∧
    node.minimumKey = minimum page ∧ node.level = level page

theorem placePages_records (records : place.Records written) {kind : Nat}
    {encode : List ε → Option Bytes} {overflow : TreeError} {minimum : List ε → Bytes}
    {level : List ε → Nat} {pages : List (List ε)} {state after : σ}
    {nodes : List PreparedTreeNode}
    (placed : placePages place kind encode overflow minimum level pages state =
      .ok (nodes, after)) :
    ∃ extents, written after = written state ++ extents ∧
      extents.map MetadataExtent.reference = nodes.map PreparedTreeNode.reference ∧
      List.Forall₂ (NodeOf extents kind encode minimum level) pages nodes := by
  induction pages generalizing state nodes with
  | nil =>
    obtain ⟨rfl, rfl⟩ := placePages_nil placed
    exact ⟨[], by simp, rfl, .nil⟩
  | cons page rest ih =>
    obtain ⟨payload, others, encoded, tail, rfl⟩ := placePages_cons placed
    obtain ⟨extents, isAfter, references, each⟩ := ih tail
    refine ⟨{ reference := (place state payload kind).1, kind, payload } :: extents, ?_, ?_, ?_⟩
    · rw [isAfter, records]
      simp
    · simp [references]
    · refine .cons ⟨payload, encoded, List.mem_cons_self, rfl, rfl⟩ ?_
      refine each.imp fun _ _ ⟨payload, encoded, member, rest⟩ => ?_
      exact ⟨payload, encoded, List.mem_cons_of_mem _ member, rest⟩

/-! ## Rows of pages -/

/-- What is found below a page of a level: entries, and the extents that lead to them. -/
abbrev Finding (ε : Type*) := Nat → ExtentReference → List ε → List ExtentReference → Prop

/-- Neighbouring pages of one level with the entries and the extents below them. -/
inductive LoadedRow (key : ε → Bytes) (found : Finding ε) (level : Nat) :
    List PreparedTreeNode → List ε → List ExtentReference → Prop
  | nil : LoadedRow key found level [] [] []
  | cons {node : PreparedTreeNode} {nodes : List PreparedTreeNode} {entry : ε}
      {entries others : List ε} {reached rest : List ExtentReference}
      (isLevel : node.level = level) (minimum : node.minimumKey = key entry)
      (here : found level node.reference (entry :: entries) reached)
      (row : LoadedRow key found level nodes others rest) :
      LoadedRow key found level (node :: nodes) (entry :: entries ++ others) (reached ++ rest)

namespace LoadedRow

variable {key : ε → Bytes} {found : Finding ε} {level : Nat} {nodes : List PreparedTreeNode}
  {entries : List ε} {reached : List ExtentReference}

theorem split {front back : List PreparedTreeNode}
    (row : LoadedRow key found level (front ++ back) entries reached) :
    ∃ first second below further, entries = first ++ second ∧ reached = below ++ further ∧
      LoadedRow key found level front first below ∧
      LoadedRow key found level back second further := by
  induction front generalizing entries reached with
  | nil => exact ⟨[], entries, [], reached, rfl, rfl, .nil, row⟩
  | cons node front ih =>
    cases row with
    | cons isLevel minimum here row =>
      obtain ⟨first, second, below, further, rfl, rfl, left, right⟩ := ih row
      exact ⟨_, second, _, further, (List.append_assoc _ _ _).symm, (List.append_assoc _ _ _).symm,
        .cons isLevel minimum here left, right⟩

theorem node (row : LoadedRow key found level nodes entries reached) :
    ∀ node ∈ nodes, node.level = level ∧ (∃ entry ∈ entries, node.minimumKey = key entry) ∧
      ∃ below extents, found level node.reference below extents := by
  induction row with
  | nil => exact fun node member => nomatch member
  | @cons node nodes entry entries others reached rest isLevel minimum here row ih =>
    refine List.forall_mem_cons.2
      ⟨⟨isLevel, ⟨entry, List.mem_cons_self, minimum⟩, _, _, here⟩, fun other member => ?_⟩
    obtain ⟨same, ⟨lead, inOthers, isKey⟩, finds⟩ := ih other member
    exact ⟨same, ⟨lead, List.mem_append_right _ inOthers, isKey⟩, finds⟩

/-- The nodes are in the order of their entries. -/
theorem ordered {r : Bytes → Bytes → Prop}
    (row : LoadedRow key found level nodes entries reached)
    (ordered : entries.Pairwise fun a b => r (key a) (key b)) :
    nodes.Pairwise fun a b => r a.minimumKey b.minimumKey := by
  induction row with
  | nil => exact .nil
  | @cons node nodes entry entries others reached rest isLevel minimum here row ih =>
    obtain ⟨-, behind, across⟩ := List.pairwise_append.1 ordered
    refine .cons (fun other member => ?_) (ih behind)
    obtain ⟨-, ⟨lead, inOthers, isKey⟩, -⟩ := row.node other member
    rw [minimum, isKey]
    exact across entry List.mem_cons_self lead inOthers

end LoadedRow

/-! ## Trees over entries -/

/-- How a tree stores its entries.  `own` are the extents that an entry leads to itself. -/
structure TreeCodec (ε : Type*) where
  role : Nat
  leafKind : Nat
  internalKind : Nat
  usedLength : List ε → Nat
  encode : List ε → Option Bytes
  key : ε → Bytes
  own : ε → List ExtentReference

namespace TreeCodec

variable {C : TreeCodec ε} {good : List ε → Prop} {stored : MetadataExtent → Prop}
  {wide : Nat → ExtentReference → Nat → Prop} {found : Finding ε} {items : List ε}
  {pages : List (List ε)} {nodes : List PreparedTreeNode} {overflow : TreeError} {turns : Nat}
  {state middle after : σ} {root : PreparedTreeNode}

/-- Key under which a page of entries appears in its parent. -/
def minimum (C : TreeCodec ε) (page : List ε) : Bytes := (page.head?.map C.key).getD []

/-- With the `stored` extents in the file, what is `found` follows the pages.  `wide` says how many
children a page has. -/
structure Reader (C : TreeCodec ε) (L : Limits) (good : List ε → Prop)
    (stored : MetadataExtent → Prop) (wide : Nat → ExtentReference → Nat → Prop)
    (found : Finding ε) : Prop where
  parts : ∀ {front back}, good (front ++ back) → good front ∧ good back
  leaf : ∀ {page payload reference}, page ≠ [] → good page → C.encode page = some payload →
    stored { reference, kind := C.leafKind, payload } →
    found 0 reference page (reference :: page.flatMap C.own)
  parent : ∀ {level leftmost rest entries reached payload reference},
    LoadedRow C.key found level (leftmost :: rest) entries reached → good entries →
    level + 1 ≤ maximumTreeLevel → encodeInternalPage L C.role (leftmost :: rest) = some payload →
    stored { reference, kind := C.internalKind, payload } →
    found (level + 1) reference entries (reference :: reached) ∧
      wide (level + 1) reference (leftmost :: rest).length

theorem Reader.leaves (reader : C.Reader L good stored wide found) {extents : List MetadataExtent}
    (each : List.Forall₂ (NodeOf extents C.leafKind C.encode C.minimum fun _ => 0) pages nodes)
    (filled : ∀ page ∈ pages, page ≠ []) (isGood : good pages.flatten)
    (inFile : ∀ extent ∈ extents, stored extent) :
    ∃ reached, LoadedRow C.key found 0 nodes pages.flatten reached ∧
      reached.Perm (nodes.map PreparedTreeNode.reference ++ pages.flatten.flatMap C.own) := by
  induction each with
  | nil => exact ⟨[], .nil, .refl _⟩
  | @cons page node pages nodes here _ ih =>
    obtain ⟨payload, encoded, member, minimum, isLevel⟩ := here
    obtain ⟨nonempty, others⟩ := List.forall_mem_cons.1 filled
    rw [List.flatten_cons] at isGood ⊢
    obtain ⟨first, behind⟩ := reader.parts isGood
    obtain ⟨reached, row, same⟩ := ih others behind
    have leaf := reader.leaf nonempty first encoded (inFile _ member)
    obtain ⟨lead, tail, rfl⟩ := List.exists_cons_of_ne_nil nonempty
    refine ⟨_, .cons isLevel minimum leaf row, ?_⟩
    rw [List.map_cons, List.cons_append, List.cons_append, List.flatMap_append]
    exact .cons _ ((same.append_left _).trans (List.perm_append_comm_assoc _ _ _))

/-- Groups of a row become the row above it, and the pages of both are reached. -/
theorem Reader.parents (reader : C.Reader L good stored wide found) {level : Nat}
    {groups : List (List PreparedTreeNode)} {parents : List PreparedTreeNode}
    {extents : List MetadataExtent} {entries : List ε} {reached : List ExtentReference}
    (each : List.Forall₂ (NodeOf extents C.internalKind (encodeInternalPage L C.role) groupMinimum
      fun group => groupLevel group + 1) groups parents)
    (filled : ∀ group ∈ groups, group ≠ []) (shallow : level + 1 ≤ maximumTreeLevel)
    (row : LoadedRow C.key found level groups.flatten entries reached) (isGood : good entries)
    (inFile : ∀ extent ∈ extents, stored extent) :
    (∃ above, LoadedRow C.key found (level + 1) parents entries above ∧
      above.Perm (parents.map PreparedTreeNode.reference ++ reached)) ∧
      List.Forall₂ (fun group parent => wide (level + 1) parent.reference group.length)
        groups parents := by
  induction each generalizing entries reached with
  | nil =>
    cases row
    exact ⟨⟨[], .nil, .refl _⟩, .nil⟩
  | @cons group parent groups parents here _ ih =>
    obtain ⟨payload, encoded, member, minimum, isLevel⟩ := here
    obtain ⟨nonempty, others⟩ := List.forall_mem_cons.1 filled
    rw [List.flatten_cons] at row
    obtain ⟨first, second, below, further, rfl, rfl, left, right⟩ := row.split
    obtain ⟨front, behind⟩ := reader.parts isGood
    obtain ⟨⟨above, rows, same⟩, counts⟩ := ih others right behind
    obtain ⟨leftmost, rest, rfl⟩ := List.exists_cons_of_ne_nil nonempty
    obtain ⟨finds, isWide⟩ := reader.parent left front shallow encoded (inFile _ member)
    refine ⟨⟨parent.reference :: below ++ above, ?_, ?_⟩, .cons isWide counts⟩
    · cases left with
      | cons leads least _ _ =>
        rw [← leads] at rows finds ⊢
        exact .cons isLevel (minimum.trans least) finds rows
    · rw [List.map_cons, List.cons_append, List.cons_append]
      exact .cons _ ((same.append_left below).trans (List.perm_append_comm_assoc _ _ _))

theorem placed_levels
    (placed : placePages place C.leafKind C.encode overflow C.minimum (fun _ => 0) pages state =
      .ok (nodes, after)) : ∀ node ∈ nodes, node.level = 0 := by
  intro node member
  have isLevel := List.mem_map_of_mem (f := PreparedTreeNode.level) member
  rw [placePages_levels placed] at isLevel
  obtain ⟨page, -, same⟩ := List.mem_map.1 isLevel
  exact same.symm

/-- The keys of the leaves are keys of entries. -/
theorem placed_keys (filled : ∀ page ∈ pages, page ≠ [])
    (placed : placePages place C.leafKind C.encode overflow C.minimum (fun _ => 0) pages state =
      .ok (nodes, after)) :
    (nodes.map PreparedTreeNode.minimumKey).Sublist (pages.flatten.map C.key) := by
  rw [placePages_minimumKeys placed]
  exact heads_sublist C.minimum C.key filled fun _ _ => rfl

theorem placed_ne_nil (nonempty : items ≠ [])
    (split : splitPages L.pagePayloadBytes C.usedLength items = some pages)
    (placed : placePages place C.leafKind C.encode overflow C.minimum (fun _ => 0) pages state =
      .ok (nodes, after)) : nodes ≠ [] := by
  rintro rfl
  have count := placePages_length placed
  have whole := (splitPages_flatten nonempty split).1
  rw [List.length_eq_zero_iff.1 count.symm] at whole
  exact nonempty whole.symm

/-- What the growth loop adds to the file: with it, the row of pages has become one page, which is
a page of the row or has two children. -/
theorem growRoot_found (records : place.Records written) {level : Nat}
    (levels : ∀ node ∈ nodes, node.level = level)
    (grown : growRoot L C.role C.internalKind place turns nodes state = .ok (root, after))
    (shallow : root.level ≤ maximumTreeLevel) :
    ∃ extents, written after = written state ++ extents ∧
      ∀ {good stored wide found entries reached}, C.Reader L good stored wide found →
        (∀ extent ∈ extents, stored extent) → good entries →
        LoadedRow C.key found level nodes entries reached →
        (∃ above, found root.level root.reference entries above ∧
          above.Perm (extents.map MetadataExtent.reference ++ reached)) ∧
        (nodes = [root] ∨ ∃ count, wide root.level root.reference count ∧ 2 ≤ count) := by
  have grows := growRoot_grows grown
  clear grown
  induction grows generalizing level with
  | root root state =>
    refine ⟨[], by simp, fun _ _ _ row => ⟨?_, Or.inl rfl⟩⟩
    cases row with
    | cons isLevel minimum here row =>
      cases row
      rw [List.append_nil, List.append_nil, isLevel]
      exact ⟨_, here, .refl _⟩
  | @up nodes parents root state next after several up rest ih =>
    obtain ⟨nonempty, groups, split, placed⟩ := levelUp_ok up
    obtain ⟨whole, filled⟩ := splitPages_flatten nonempty split
    obtain ⟨first, isNext, references, each⟩ := placePages_records records placed
    obtain ⟨extents, isAfter, later⟩ := ih (levelUp_levels levels up) shallow
    refine ⟨first ++ extents, by rw [isAfter, isNext, List.append_assoc], ?_⟩
    intro good stored wide found entries reached reader inFile isGood row
    obtain ⟨here, behind⟩ := List.forall_mem_append.1 inFile
    rw [← whole] at row
    have above := levelUp_levels levels up
    obtain ⟨⟨below, rows, one⟩, counts⟩ :=
      reader.parents each filled ((rest.level_le above).trans shallow) row isGood here
    obtain ⟨⟨all, finds, two⟩, isWide⟩ := later reader behind isGood rows
    refine ⟨⟨all, finds, two.trans ?_⟩, Or.inr ?_⟩
    · rw [List.map_append, List.append_assoc, references]
      exact (one.append_left _).trans (List.perm_append_comm_assoc _ _ _)
    · rcases isWide with rfl | children
      · -- the root is the only page above the row
        rw [above root List.mem_cons_self]
        cases counts with
        | @cons group _ _ _ here none =>
          cases none
          refine ⟨_, here, ?_⟩
          rw [List.flatten_singleton] at whole
          have := List.length_pos_of_ne_nil nonempty
          rw [whole]
          omega
      · exact children

section Nonempty

variable (nonempty : items ≠ [])
  (split : splitPages L.pagePayloadBytes C.usedLength items = some pages)
  (placed : placePages place C.leafKind C.encode overflow C.minimum (fun _ => 0) pages state =
    .ok (nodes, middle))
  (grown : growRoot L C.role C.internalKind place turns nodes middle = .ok (root, after))

include nonempty split placed grown

/-- The loader finds the entries below the root, and reaches each written page and each extent of an
entry once. -/
theorem found_root (records : place.Records written) (shallow : root.level ≤ maximumTreeLevel) :
    ∃ extents, written after = written state ++ extents ∧
      ∀ {good stored wide found}, C.Reader L good stored wide found →
        (∀ extent ∈ extents, stored extent) → good items →
        (∃ reached, found root.level root.reference items reached ∧
          reached.Perm (extents.map MetadataExtent.reference ++ items.flatMap C.own)) ∧
        (root.level = 0 ∨ ∃ count, wide root.level root.reference count ∧ 2 ≤ count) := by
  obtain ⟨whole, filled⟩ := splitPages_flatten nonempty split
  obtain ⟨leaves, isMiddle, references, each⟩ := placePages_records records placed
  have levels := placed_levels placed
  obtain ⟨extents, isAfter, above⟩ := growRoot_found records levels grown shallow
  refine ⟨leaves ++ extents, by rw [isAfter, isMiddle, List.append_assoc], ?_⟩
  intro good stored wide found reader inFile isGood
  obtain ⟨here, behind⟩ := List.forall_mem_append.1 inFile
  obtain ⟨below, row, one⟩ := reader.leaves each filled (whole ▸ isGood) here
  rw [whole] at row one
  obtain ⟨⟨reached, finds, two⟩, isWide⟩ := above reader behind isGood row
  refine ⟨⟨reached, finds, two.trans ?_⟩, isWide.imp_left ?_⟩
  · rw [List.map_append, List.append_assoc, references]
    exact (one.append_left _).trans (List.perm_append_comm_assoc _ _ _)
  · rintro rfl
    exact levels root List.mem_cons_self

/-- With short keys the levels of the tree are few. -/
theorem height (short : ∀ item ∈ items, (C.key item).length ≤ 16)
    (few : items.length ≤ 4 ^ maximumTreeLevel) :
    root.level ≤ maximumTreeLevel := by
  obtain ⟨whole, filled⟩ := splitPages_flatten nonempty split
  have keys := placed_keys filled placed
  rw [whole] at keys
  have high := growRoot_height (placed_ne_nil nonempty split placed)
    (fun key member => by
      obtain ⟨item, inItems, rfl⟩ := List.mem_map.1 (keys.mem member)
      exact short item inItems)
    (placed_levels placed)
    ((placePages_length placed).trans_le ((splitPages_length_le nonempty split).trans few)) grown
  rwa [Nat.zero_add] at high

end Nonempty

/-- Entries with short keys can always be written. -/
theorem complete (short : ∀ item ∈ items, (C.key item).length ≤ 16) (nonempty : items ≠ [])
    (empty : C.usedLength [] ≤ L.pagePayloadBytes)
    (singles : ∀ item ∈ items, C.usedLength [item] ≤ L.pagePayloadBytes)
    (encodes : ∀ page, page ≠ [] → C.usedLength page ≤ L.pagePayloadBytes → C.encode page ≠ none)
    (overflow : TreeError) (place : Placement σ) (state : σ) :
    ∃ pages nodes middle,
      splitPages L.pagePayloadBytes C.usedLength items = some pages ∧
      placePages place C.leafKind C.encode overflow C.minimum (fun _ => 0) pages state =
        .ok (nodes, middle) ∧
      ∀ turns, nodes.length ≤ turns → ∃ root after,
        growRoot L C.role C.internalKind place turns nodes middle = .ok (root, after) := by
  have room := pagePayloadBytes_lower L
  obtain ⟨pages, split, fits⟩ :=
    splitPages_spec ((pagePayloadBytes_lt L).trans (by decide)) empty nonempty singles
  obtain ⟨whole, filled⟩ := splitPages_flatten nonempty split
  cases placed : placePages place C.leafKind C.encode overflow C.minimum (fun _ => 0) pages
      state with
  | error error =>
    obtain ⟨-, page, member, missing⟩ := placePages_error placed
    exact absurd missing (encodes page (filled page member) (fits page member))
  | ok result =>
    obtain ⟨nodes, middle⟩ := result
    have keys := placed_keys filled placed
    rw [whole] at keys
    refine ⟨pages, nodes, middle, split, placed, fun turns enough => ?_⟩
    refine growRoot_complete (placed_ne_nil nonempty split placed) (placed_levels placed)
      (fun key member => ?_) enough
    obtain ⟨item, inItems, rfl⟩ := List.mem_map.1 (keys.mem member)
    have := short item inItems
    omega

end TreeCodec

end Miare
