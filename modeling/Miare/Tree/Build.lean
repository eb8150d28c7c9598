import Miare.Tree.Persist

/-!
# Building a tree from a map

A commit builds the tree of the cursors anew from the whole map, and then writes the changed nodes
of the committed tree (`include/miare/detail/exact_store.hpp:3360-3423`, `3528-3532`,
`3728-3863`).  Both raise their pages level by level until one is left.
-/

namespace Miare

open Misc

/-- What `internalUsedLength` reads of a node. -/
def MutableTree.prepared {level : Nat} (node : MutableTree level) : PreparedTreeNode :=
  { reference := node.reference, minimumKey := node.minimumKey, level := level }

end Miare
