import Miare.Tree.Proofs.LoadFixed
import Miare.Tree.Proofs.Persist
import Miare.Tree.Proofs.PersistOrdered

/-!
# Committing the Blob catalog

A commit replaces the map of the catalog, except that nothing resets an internal root that has lost
all its children: the next put then looks for a child that is not there.
-/

namespace Miare

open Misc MutableTree

variable {L : Limits} {input : CommitInput} {format later : OpenedFormat}
  {store after : ExtentStore} {state next : CommitState} {reference : ExtentReference}

/-! ## Leaves -/

/-- The entry that `writeFixedLeaf` makes of a value. -/
def MutableTreeValue.fixedEntry (item : MutableTreeValue) : FixedLeafEntry :=
  { key := item.key, reference := decodeExtentReference item.value }

theorem FixedValue.fixedEntry {size : Nat} {item : MutableTreeValue}
    (value : FixedValue L format size item) :
    item.fixedEntry.toValue = item ∧ item.fixedEntry.Fits size ∧
      item.fixedEntry.reference.Placed L format := by
  obtain ⟨entry, rfl, fits, placed⟩ := value
  have same : entry.toValue.fixedEntry = entry := by
    rw [MutableTreeValue.fixedEntry]
    change FixedLeafEntry.mk entry.key (decodeExtentReference (encodeExtentReference _)) = entry
    rw [decodeExtentReference_encode fits.reference]
  rw [same]
  exact ⟨rfl, fits, placed⟩

/-- The manifests as values of the mutable tree. -/
def BlobManifests.pairs (manifests : BlobManifests) : List (Bytes × Bytes) :=
  manifests.entries.map FixedLeafEntry.pair

theorem BlobManifests.increasing_pairs (manifests : BlobManifests) :
    Increasing Prod.fst manifests.pairs :=
  increasing_fixedPairs.2 manifests.increasing

section Edit

variable {pages : Pages Bytes ExtentReference (Bytes × Bytes)} {good : MutableTreeValue → Prop}
  {old new : BlobManifests} {root : MutableRoot}

end Edit

/-! ## The whole path -/

section Commit

variable {load : FixedLoad} {root edited : MutableRoot} {old new : BlobManifests}

end Commit

theorem repeatedIds_increasing (left right : Byte)
    (less : (repeatedId left).key < (repeatedId right).key) :
    Increasing FixedLeafEntry.key [repeatedId left, repeatedId right] :=
  increasing_cons.2 ⟨by simpa using less, List.pairwise_singleton _ _⟩

/-- A catalog with a leaf for each of two Blobs. -/
theorem fixedHolds_two_leaves : ∃ store children,
    Holds Prod.fst (fixedPages .default ⟨1, 2 ^ 20⟩ store catalogRole) 1 (pageReference 28)
        [(repeatedId 0).pair, (repeatedId 1).pair] ∧
      fixedChildren .default ⟨1, 2 ^ 20⟩ store catalogRole 1 (pageReference 28) = .ok children ∧
      2 ≤ children.length := by
  have room := pagePayloadBytes_lower .default
  obtain ⟨first, encodedFirst⟩ := encodeFixedLeafPage_single 0
  obtain ⟨second, encodedSecond⟩ := encodeFixedLeafPage_single 1
  let left : PreparedTreeNode := ⟨pageReference 20, (repeatedId 0).key, 0⟩
  let right : PreparedTreeNode := ⟨pageReference 24, (repeatedId 1).key, 0⟩
  obtain ⟨top, encodedTop⟩ : ∃ payload, encodeInternalPage .default 2 [left, right] =
      some payload := by
    refine Option.ne_none_iff_exists'.1 (encodeInternalPage_fits (by simp) ?_)
    rw [internalUsedLength_pair, show right.minimumKey.length = 16 from List.length_replicate]
    omega
  let store : ExtentStore := fun reference =>
    if reference = pageReference 20 then some { context := { unitKind := 4 }, payload := first }
    else if reference = pageReference 24 then
      some { context := { unitKind := 4 }, payload := second }
    else if reference = pageReference 28 then some { context := { unitKind := 3 }, payload := top }
    else none
  have page : PageAt .default ⟨1, 2 ^ 20⟩ store catalogRole 3 (pageReference 28) top :=
    pageAt_reference (by decide) (by decide) (encodeInternalPage_length encodedTop) rfl
  have isInner := fixedChildren_encode catalogRole_keys encodedTop (by decide)
    (List.pairwise_singleton _ _) (by simp [right, repeatedId])
    (by simp [left, right, ExtentReference.Fits, pageReference, ExtentReference.null]) page
  have row : Row Prod.fst (fixedPages .default ⟨1, 2 ^ 20⟩ store catalogRole) 0
      [left.entry, right.entry] ([(repeatedId 0).pair] ++ [(repeatedId 1).pair]) :=
    Row.cons (fixedHolds_single (by decide) (by decide) (by decide) encodedFirst rfl) rfl
      (Row.single (fixedHolds_single (by decide) (by decide) (by decide) encodedSecond rfl) rfl)
  have increasing := increasing_fixedPairs.2 (repeatedIds_increasing 0 1 (by decide))
  exact ⟨store, _, (row.inner isInner increasing).1, isInner, le_rfl⟩

end Miare
