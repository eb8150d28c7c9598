import Miare.Page.Proofs.Frame

/-!
# Common prefixes of sorted keys

A page stores the prefix its keys share once.  In a sorted page this is the prefix shared by the
first and the last key.
-/

namespace Miare

open Misc

theorem commonPrefixLength_le_left (first last : Bytes) :
    commonPrefixLength first last ≤ first.length := by
  induction first generalizing last with
  | nil => simp [commonPrefixLength]
  | cons a first ih =>
    cases last with
    | nil => simp [commonPrefixLength]
    | cons b last =>
      simp only [commonPrefixLength, List.length_cons]
      split
      · exact Nat.succ_le_succ (ih last)
      · exact Nat.zero_le _

theorem take_commonPrefixLength (first last : Bytes) :
    first.take (commonPrefixLength first last) = last.take (commonPrefixLength first last) := by
  induction first generalizing last with
  | nil => simp [commonPrefixLength]
  | cons a first ih =>
    cases last with
    | nil => simp [commonPrefixLength]
    | cons b last =>
      simp only [commonPrefixLength]
      split
      · rename_i same
        rw [List.take_succ_cons, List.take_succ_cons, ih last, same]
      · rfl

theorem commonPrefixLength_take (first last : Bytes) (length : Nat) :
    commonPrefixLength (first.take length) (last.take length) =
      min length (commonPrefixLength first last) := by
  induction first generalizing last length with
  | nil => simp [commonPrefixLength]
  | cons a first ih =>
    cases last with
    | nil => simp [commonPrefixLength]
    | cons b last =>
      cases length with
      | zero => simp [commonPrefixLength]
      | succ length =>
        simp only [List.take_succ_cons, commonPrefixLength, ih]
        split
        · omega
        · simp

theorem commonPrefixLength_self (key : Bytes) : commonPrefixLength key key = key.length := by
  induction key with
  | nil => rfl
  | cons a key ih => simp [commonPrefixLength, ih]

theorem cons_le_cons {a b : Byte} {first last : Bytes} :
    (a :: first : Bytes) ≤ b :: last ↔ a < b ∨ a = b ∧ first ≤ last := by
  rw [← not_lt, List.cons_lt_cons_iff, ← not_lt (a := last)]
  constructor
  · intro above
    rcases lt_trichotomy a b with less | same | more
    · exact Or.inl less
    · exact Or.inr ⟨same, fun inner => above (Or.inr ⟨same.symm, inner⟩)⟩
    · exact absurd (Or.inl more) above
  · rintro (less | ⟨same, inner⟩) (more | ⟨back, other⟩)
    · exact lt_asymm less more
    · exact less.ne' back
    · exact more.ne' same
    · exact inner other

/-- A key between two others shares their prefix with the first. -/
theorem commonPrefixLength_le_between {first middle last : Bytes} (above : first ≤ middle)
    (below : middle ≤ last) :
    commonPrefixLength first last ≤ commonPrefixLength first middle := by
  induction first generalizing middle last with
  | nil => simp [commonPrefixLength]
  | cons a first ih =>
    cases last with
    | nil => simp [commonPrefixLength]
    | cons c last =>
      simp only [commonPrefixLength]
      split
      · rename_i ends
        subst ends
        cases middle with
        | nil => exact absurd above (not_le.2 (List.nil_lt_cons a first))
        | cons b middle =>
          rw [cons_le_cons] at above below
          -- the head of the middle key is squeezed between equal heads
          obtain rfl : a = b := by
            rcases above with less | ⟨same, -⟩
            · rcases below with more | ⟨same, -⟩
              · exact absurd less (lt_asymm more)
              · exact same.symm
            · exact same
          have step := ih (show first ≤ middle by simpa using above)
            (show middle ≤ last by simpa using below)
          rw [commonPrefixLength, if_pos rfl]
          exact Nat.succ_le_succ step
      · exact Nat.zero_le _

theorem le_foldl_min {α : Type*} {size : α → Nat} {items : List α} {bound start : Nat} :
    bound ≤ items.foldl (fun length item => min length (size item)) start ↔
      bound ≤ start ∧ ∀ item ∈ items, bound ≤ size item := by
  induction items generalizing start with
  | nil => simp
  | cons item rest ih =>
    rw [List.foldl_cons, ih, List.forall_mem_cons, le_min_iff, and_assoc]

/-- The fold over all keys ends at the least common prefix with the first. -/
theorem le_sharedPrefixLength {first : Bytes} {rest : List Bytes} {length : Nat} :
    length ≤ sharedPrefixLength (first :: rest) ↔
      length ≤ first.length ∧ ∀ key ∈ rest, length ≤ commonPrefixLength first key := by
  have step : (fun (length : Nat) (key : Bytes) =>
      min length (commonPrefixLength (first.take length) (key.take length))) =
        fun length key => min length (commonPrefixLength first key) := by
    funext length key
    rw [commonPrefixLength_take]
    omega
  rw [sharedPrefixLength, step, le_foldl_min]

/-- Every key begins with the shared prefix. -/
theorem take_sharedPrefixLength {first key : Bytes} {rest : List Bytes}
    (member : key ∈ first :: rest) :
    sharedPrefixLength (first :: rest) ≤ key.length ∧
      key.take (sharedPrefixLength (first :: rest)) =
        first.take (sharedPrefixLength (first :: rest)) := by
  obtain ⟨inFirst, inRest⟩ := le_sharedPrefixLength.1
    (Nat.le_refl (sharedPrefixLength (first :: rest)))
  rcases List.mem_cons.1 member with rfl | later
  · exact ⟨inFirst, rfl⟩
  · have common := inRest key later
    have agree := congrArg (List.take (sharedPrefixLength (first :: rest)))
      (take_commonPrefixLength first key)
    rw [List.take_take, List.take_take, Nat.min_eq_left common] at agree
    refine ⟨?_, agree.symm⟩
    have lengths := congrArg List.length (take_commonPrefixLength first key)
    rw [List.length_take, List.length_take] at lengths
    omega

/-- A key is the shared prefix and the rest of the key. -/
theorem key_split {key : Bytes} (keys : List Bytes) (member : key ∈ keys) :
    sharedPrefixLength keys ≤ key.length ∧
      key = (keys.headD []).take (sharedPrefixLength keys) ++
        key.drop (sharedPrefixLength keys) := by
  cases keys with
  | nil => cases member
  | cons first rest =>
    obtain ⟨short, same⟩ := take_sharedPrefixLength member
    refine ⟨short, ?_⟩
    rw [List.headD_cons, ← same, List.take_append_drop]

theorem headD_take_length (keys : List Bytes) :
    ((keys.headD []).take (sharedPrefixLength keys)).length = sharedPrefixLength keys := by
  cases keys with
  | nil => rfl
  | cons first rest =>
    rw [List.length_take]
    exact Nat.min_eq_left (le_sharedPrefixLength.1 (Nat.le_refl _)).1

/-- In sorted keys the first and the last key share no more than all keys do. -/
theorem sharedPrefixLength_sorted (keys : List Bytes) (sorted : keys.Pairwise (· ≤ ·)) :
    commonPrefixLength (keys.headD []) (keys.getLastD []) = sharedPrefixLength keys := by
  cases keys with
  | nil => rfl
  | cons first rest =>
    have isLast := List.getLast_mem (List.cons_ne_nil first rest)
    rw [List.headD_cons, List.getLastD_eq_getLast?,
      List.getLast?_eq_some_getLast (List.cons_ne_nil _ _), Option.getD_some]
    apply le_antisymm
    · rw [le_sharedPrefixLength]
      refine ⟨commonPrefixLength_le_left _ _, fun key member => ?_⟩
      refine commonPrefixLength_le_between (List.rel_of_pairwise_cons sorted member) ?_
      exact sorted.rel_getLast (List.mem_cons_of_mem _ member)
    · rcases List.mem_cons.1 isLast with same | later
      · rw [same, commonPrefixLength_self]
        exact (le_sharedPrefixLength.1 (Nat.le_refl _)).1
      · exact (le_sharedPrefixLength.1 (Nat.le_refl _)).2 _ later

theorem keys_sorted {α : Type} {key : α → Bytes} {items : List α}
    (increasing : Increasing key items) : (items.map key).Pairwise (· ≤ ·) :=
  List.pairwise_map.2 (increasing.imp fun less => less.le)

/-! ## Items of a page -/

/-- The items of a page behind the bytes that all their keys share. -/
structure PageItems (L : Limits) {α : Type} (key : α → Bytes) (encode : Nat → α → Bytes)
    (items : List α) (shared : Bytes) : Prop where
  sized : shared.length = sharedPrefixLength (items.map key)
  split : ∀ item ∈ items, shared.length ≤ (key item).length ∧
    key item = shared ++ (key item).drop shared.length
  used : pageUsedLength shared.length (items.map (encode shared.length)) ≤ L.pagePayloadBytes

namespace PageItems

variable {L : Limits} {α : Type} {key : α → Bytes} {encode : Nat → α → Bytes} {items : List α}
  {shared : Bytes}

theorem of_room (room : pageUsedLength (sharedPrefixLength (items.map key))
      (items.map (encode (sharedPrefixLength (items.map key)))) ≤ L.pagePayloadBytes) :
    PageItems L key encode items
      (((items.map key).headD []).take (sharedPrefixLength (items.map key))) where
  sized := headD_take_length _
  split item member := by
    rw [headD_take_length]
    exact key_split _ (List.mem_map_of_mem member)
  used := by rwa [headD_take_length]

theorem used_lt (page : PageItems L key encode items shared) :
    pageUsedLength shared.length (items.map (encode shared.length)) < 2 ^ 32 :=
  Nat.lt_of_le_of_lt page.used (pagePayloadBytes_lt L)

/-- Keys of one length are not shorter than what they share. -/
theorem short {size : Nat} (page : PageItems L key encode items shared)
    (sizes : ∀ item ∈ items, (key item).length = size) : shared.length ≤ size := by
  cases items with
  | nil =>
    rw [page.sized]
    exact Nat.zero_le _
  | cons item rest =>
    rw [← sizes item List.mem_cons_self]
    exact (page.split item List.mem_cons_self).1

end PageItems

/-! ## Internal pages -/

theorem encodeSeparator_length {shared : Nat} {node : PreparedTreeNode}
    (short : shared ≤ node.minimumKey.length) :
    (encodeSeparator shared node).length = 4 + node.minimumKey.length - shared + 32 := by
  simp only [encodeSeparator, List.length_append, toLittleEndian_length, List.length_drop,
    encodeExtentReference_length]
  omega

theorem internalUsedLength_eq (leftmost : PreparedTreeNode) (rest : List PreparedTreeNode) :
    pageUsedLength (sharedPrefixLength (separators (leftmost :: rest)))
        (rest.map (encodeSeparator (sharedPrefixLength (separators (leftmost :: rest))))) =
      internalUsedLength (leftmost :: rest) := by
  have lengths : (rest.map (encodeSeparator
        (sharedPrefixLength (separators (leftmost :: rest))))).map List.length =
      (separators (leftmost :: rest)).map fun key =>
        4 + key.length - sharedPrefixLength (separators (leftmost :: rest)) + 32 := by
    simp only [separators, List.tail_cons, List.map_map]
    apply List.map_congr_left
    intro node member
    exact encodeSeparator_length (key_split _ (List.mem_map_of_mem member)).1
  simp only [pageUsedLength, internalUsedLength, entriesLength, lengths, List.length_map,
    List.length_cons, Nat.add_sub_cancel]

/-- What the encoder makes of the children of an internal page. -/
theorem encodeInternalPage_eq_some {L : Limits} {role : Nat} {leftmost : PreparedTreeNode}
    {rest : List PreparedTreeNode} {payload : Bytes}
    (encoded : encodeInternalPage L role (leftmost :: rest) = some payload) :
    ∃ shared, PageItems L PreparedTreeNode.minimumKey encodeSeparator rest shared ∧
      payload = encodePage L 2 role (leftmost.level + 1) (encodeExtentReference leftmost.reference)
        shared (rest.map (encodeSeparator shared.length)) := by
  unfold encodeInternalPage at encoded
  dsimp only at encoded
  split at encoded
  · cases encoded
  rename_i room
  rw [← internalUsedLength_eq, Nat.not_lt] at room
  have page : PageItems L PreparedTreeNode.minimumKey encodeSeparator rest _ := .of_room room
  refine ⟨_, page, ?_⟩
  rw [page.sized]
  exact (Option.some.inj encoded).symm

end Miare
