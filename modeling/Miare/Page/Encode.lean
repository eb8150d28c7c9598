import Miare.Extent
import Miare.Misc.Bytes

/-!
# Encoding of tree pages

All trees of the store share one page frame: a header of 96 bytes, the prefix common to the keys
of the page, a slot of eight bytes per entry, and the entries themselves, padded with zeros to
the page payload (`include/miare/detail/exact_store.hpp:290-307`).  The four encoders
(`exact_store.hpp:515-586`, `857-912`, `946-1005`, `1027-1090`) differ in the entries.
-/

namespace Miare

open Misc

/-- `PageLayout::bytes`. -/
def pageLayoutBytes : Nat := 96

/-- Bytes of a page before compression and framing. -/
def Limits.pagePayloadBytes (L : Limits) : Nat :=
  max (16 * 1024) L.allocationQuantumBytes - extentLayoutBytes - authenticationTagBytes

/-- Length of the longest common prefix (`exact_store.hpp:470-479`). -/
def commonPrefixLength : Bytes → Bytes → Nat
  | a :: first, b :: last => if a = b then commonPrefixLength first last + 1 else 0
  | _, _ => 0

/-- The loop that shortens the first key until it is a prefix of all keys; the internal,
fixed-key and allocator encoders share it. -/
def sharedPrefixLength : List Bytes → Nat
  | [] => 0
  | first :: rest =>
    rest.foldl (fun length key =>
      min length (commonPrefixLength (first.take length) (key.take length))) first.length

/-- `encodeExtentReference` (`exact_store.hpp:432-440`). -/
def encodeExtentReference (reference : ExtentReference) : Bytes :=
  toLittleEndian 8 reference.blockIndex ++ toLittleEndian 8 reference.blockCount ++
    toLittleEndian 8 reference.encodedLength ++ toLittleEndian 8 reference.creationGeneration

/-- `"MIAREPG\0"`. -/
def pageMagic : Bytes := [77, 73, 65, 82, 69, 80, 71, 0]

/-- Total length of a list of encoded entries. -/
def entriesLength (entries : List Bytes) : Nat :=
  (entries.map List.length).sum

/-- One slot per entry: its position and its length. -/
def encodeSlots (position : Nat) : List Bytes → Bytes
  | [] => []
  | entry :: rest =>
    toLittleEndian 4 position ++ toLittleEndian 4 entry.length ++
      encodeSlots (position + entry.length) rest

/-- Bytes of a page in use. -/
def pageUsedLength (sharedLength : Nat) (entries : List Bytes) : Nat :=
  pageLayoutBytes + sharedLength + entries.length * 8 + entriesLength entries

/-- The page header. -/
def encodePageHeader (type role level : Nat) (leftmostChild : Bytes) (sharedLength : Nat)
    (entries : List Bytes) : Bytes :=
  pageMagic ++ toLittleEndian 2 1 ++ toLittleEndian 2 type ++ toLittleEndian 4 pageLayoutBytes ++
    toLittleEndian 4 role ++ toLittleEndian 4 level ++ toLittleEndian 4 entries.length ++
    toLittleEndian 4 sharedLength ++ toLittleEndian 4 (pageLayoutBytes + sharedLength) ++
    toLittleEndian 4 (pageLayoutBytes + sharedLength + entries.length * 8) ++
    toLittleEndian 4 (pageUsedLength sharedLength entries) ++ toLittleEndian 4 0 ++
    leftmostChild ++ List.replicate 16 0

/-- A whole page payload. -/
def encodePage (L : Limits) (type role level : Nat) (leftmostChild shared : Bytes)
    (entries : List Bytes) : Bytes :=
  encodePageHeader type role level leftmostChild shared.length entries ++ shared ++
    encodeSlots (pageLayoutBytes + shared.length + entries.length * 8) entries ++
    entries.flatten ++
    List.replicate (L.pagePayloadBytes - pageUsedLength shared.length entries) 0

/-- A leaf has no leftmost child: 32 zero bytes. -/
def noChild : Bytes := List.replicate 32 0

/-! ## Allocator index leaves -/

/-- `allocatorRunKey` (`exact_store.hpp:481-492`), cut to the key length of the index. -/
def allocatorRunKey (retired : Bool) (run : ExtentRun) : Bytes :=
  if retired then
    toLittleEndian 8 run.retirementGeneration ++ toLittleEndian 8 run.start
  else toLittleEndian 8 run.start

/-- Key length of the free or the retired index. -/
def allocatorKeyLength (retired : Bool) : Nat := if retired then 16 else 8

/-- `allocatorIndexUsedLength` (`exact_store.hpp:494-513`). -/
def allocatorIndexUsedLength (retired : Bool) (runs : List ExtentRun) : Nat :=
  let shared := sharedPrefixLength (runs.map (allocatorRunKey retired))
  pageLayoutBytes + shared + runs.length * 8 +
    runs.length * (12 + allocatorKeyLength retired - shared)

/-- One run of an index leaf: the rest of its key and its block count. -/
def encodeAllocatorEntry (retired : Bool) (shared : Nat) (run : ExtentRun) : Bytes :=
  toLittleEndian 4 (allocatorKeyLength retired - shared) ++
    (allocatorRunKey retired run).drop shared ++ toLittleEndian 8 run.count

/-- `encodeAllocatorIndexLeaf` (`exact_store.hpp:515-586`); `none` is its `ResourceLimit` error
"allocator index requires more than one metadata leaf". -/
def encodeAllocatorIndexLeaf (L : Limits) (retired : Bool) (runs : List ExtentRun) :
    Option Bytes :=
  let keys := runs.map (allocatorRunKey retired)
  let shared := sharedPrefixLength keys
  if runs = [] ∨ L.pagePayloadBytes < allocatorIndexUsedLength retired runs then none
  else
    some (encodePage L 1 (if retired then 5 else 4) 0 noChild ((keys.headD []).take shared)
      (runs.map (encodeAllocatorEntry retired shared)))

/-! ## Leaves of the ordered tree -/

/-- A key with its value, and the extent of the value when it is stored outside its leaf:
`MutableTreeValue` and `PersistedLeafEntry` (`exact_store.hpp:636-641`, `1910-1914`). -/
structure MutableTreeValue where
  key : Bytes
  value : Bytes
  overflow : ExtentReference := {}
deriving DecidableEq, Repr

/-- The prefix common to the first and the last key of a leaf. -/
def leafSharedLength (entries : List MutableTreeValue) : Nat :=
  commonPrefixLength ((entries.head?.map MutableTreeValue.key).getD [])
    ((entries.getLast?.map MutableTreeValue.key).getD [])

/-- Bytes of a value inside its leaf. -/
def inlineLength (entry : MutableTreeValue) : Nat :=
  if entry.overflow.null then entry.value.length else 32

/-- `leafUsedLength` (`exact_store.hpp:841-855`). -/
def leafUsedLength (entries : List MutableTreeValue) : Nat :=
  let shared := leafSharedLength entries
  pageLayoutBytes + shared + entries.length * 8 +
    (entries.map fun entry => 4 + entry.key.length - shared + 16 + inlineLength entry).sum

/-- An entry of an ordered leaf: the rest of the key, the representation, the value length, and
the value or the reference of its extent. -/
def encodeLeafEntry (shared : Nat) (entry : MutableTreeValue) : Bytes :=
  toLittleEndian 4 (entry.key.length - shared) ++ entry.key.drop shared ++
    ((if entry.overflow.null then 0 else 1) :: List.replicate 7 0) ++
    toLittleEndian 8 entry.value.length ++
    (if entry.overflow.null then entry.value else encodeExtentReference entry.overflow)

/-- `encodeLeafPage` (`exact_store.hpp:857-912`); `none` is its `ResourceLimit` error "one
key/value cannot fit in a leaf page". -/
def encodeLeafPage (L : Limits) (entries : List MutableTreeValue) : Option Bytes :=
  let shared := leafSharedLength entries
  if L.pagePayloadBytes < leafUsedLength entries then none
  else
    some (encodePage L 1 1 0 noChild
      (((entries.head?.map MutableTreeValue.key).getD []).take shared)
      (entries.map (encodeLeafEntry shared)))

/-! ## Leaves of the fixed-key trees -/

/-- `FixedLeafEntry` (`exact_store.hpp:643-647`). -/
structure FixedLeafEntry where
  key : Bytes
  reference : ExtentReference
deriving DecidableEq, Repr

/-- `fixedLeafUsedLength` (`exact_store.hpp:931-944`) with `fixedKeyPrefixLength`. -/
def fixedLeafUsedLength (entries : List FixedLeafEntry) : Nat :=
  let shared := sharedPrefixLength (entries.map FixedLeafEntry.key)
  pageLayoutBytes + shared + entries.length * 8 +
    (entries.map fun entry => 4 + entry.key.length - shared + 32).sum

/-- An entry of a fixed-key leaf: the rest of the key and a reference. -/
def encodeFixedEntry (shared : Nat) (entry : FixedLeafEntry) : Bytes :=
  toLittleEndian 4 (entry.key.length - shared) ++ entry.key.drop shared ++
    encodeExtentReference entry.reference

/-- `encodeFixedLeafPage` (`exact_store.hpp:946-1005`).  The function has no check of its own;
`none` stands for a write behind the end of the page. -/
def encodeFixedLeafPage (L : Limits) (role : Nat) (entries : List FixedLeafEntry) :
    Option Bytes :=
  let keys := entries.map FixedLeafEntry.key
  let shared := sharedPrefixLength keys
  if L.pagePayloadBytes < fixedLeafUsedLength entries then none
  else
    some (encodePage L 1 role 0 noChild ((keys.headD []).take shared)
      (entries.map (encodeFixedEntry shared)))

/-! ## Internal pages -/

/-- A page written for a tree, as its parent sees it (`exact_store.hpp:650-655`). -/
structure PreparedTreeNode where
  reference : ExtentReference
  minimumKey : Bytes
  level : Nat
deriving DecidableEq, Repr

/-- The separators of an internal page: the least keys of all children but the first. -/
def separators (nodes : List PreparedTreeNode) : List Bytes :=
  nodes.tail.map PreparedTreeNode.minimumKey

/-- `internalUsedLength` (`exact_store.hpp:1007-1025`). -/
def internalUsedLength (nodes : List PreparedTreeNode) : Nat :=
  let shared := sharedPrefixLength (separators nodes)
  pageLayoutBytes + shared + (nodes.length - 1) * 8 +
    ((separators nodes).map fun key => 4 + key.length - shared + 32).sum

/-- A separator entry: the rest of the key and the child behind it. -/
def encodeSeparator (shared : Nat) (node : PreparedTreeNode) : Bytes :=
  toLittleEndian 4 (node.minimumKey.length - shared) ++ node.minimumKey.drop shared ++
    encodeExtentReference node.reference

/-- `encodeInternalPage` (`exact_store.hpp:1027-1090`); `none` is its `ResourceLimit` error "one
separator cannot fit in an internal page". -/
def encodeInternalPage (L : Limits) (role : Nat) (nodes : List PreparedTreeNode) :
    Option Bytes :=
  match nodes with
  | [] => none
  | leftmost :: rest =>
    let shared := sharedPrefixLength (separators nodes)
    if L.pagePayloadBytes < internalUsedLength nodes then none
    else
      some (encodePage L 2 role (leftmost.level + 1) (encodeExtentReference leftmost.reference)
        (((separators nodes).headD []).take shared) (rest.map (encodeSeparator shared)))

end Miare
