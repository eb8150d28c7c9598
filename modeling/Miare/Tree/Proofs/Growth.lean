import Miare.Page.Proofs.Keys
import Miare.Tree.Proofs.Levels

/-!
# How high a tree grows

Where a level is cut depends on the least keys of its pages alone, so what the growth loop does is
an iteration on these keys.  A level of pages that leave room for a second child loses a page with
every turn; with keys of up to 4096 bytes, no two pages in a row keep a single child, and every turn
takes a third of the level.
-/

namespace Miare

open Misc

variable {σ : Type*} {L : Limits} {place : Placement σ}

/-! ## The keys at which pages begin -/

/-- A node of which only the key matters. -/
def keyNode (key : Bytes) : PreparedTreeNode := { reference := {}, minimumKey := key, level := 0 }

/-- Room of an internal page over children with these least keys. -/
def separatorsLength (keys : List Bytes) : Nat := internalUsedLength (keys.map keyNode)

/-- The least keys of the pages above pages with these least keys. -/
def parentKeys (L : Limits) (keys : List Bytes) : List Bytes :=
  match splitPages L.pagePayloadBytes separatorsLength keys with
  | none => []
  | some groups => groups.map (List.headD · [])

theorem separators_keyNode (keys : List Bytes) : separators (keys.map keyNode) = keys.tail := by
  rw [separators, ← List.map_tail, List.map_map]
  exact List.map_id _

theorem internalUsedLength_keys (nodes : List PreparedTreeNode) :
    internalUsedLength nodes = separatorsLength (nodes.map PreparedTreeNode.minimumKey) := by
  rw [separatorsLength, internalUsedLength, internalUsedLength, separators_keyNode, separators,
    List.map_tail, List.length_map, List.length_map]

theorem separatorsLength_singleton (key : Bytes) : separatorsLength [key] = 96 :=
  internalUsedLength_singleton (keyNode key)

theorem separatorsLength_pair (left right : Bytes) :
    separatorsLength [left, right] = 140 + right.length :=
  internalUsedLength_pair (keyNode left) (keyNode right)

section Size

variable {first key : Bytes} {keys : List Bytes}

theorem separatorsLength_eq (first : Bytes) (keys : List Bytes) :
    separatorsLength (first :: keys) = 96 + sharedPrefixLength keys + keys.length * 8 +
      (keys.map fun key => 4 + key.length - sharedPrefixLength keys + 32).sum := by
  rw [separatorsLength, internalUsedLength, separators_keyNode, List.length_map]
  rfl

/-- All separators but one leave out the bytes that all of them share. -/
theorem separatorsLength_shared (first key : Bytes) (keys : List Bytes) :
    separatorsLength (first :: key :: keys) + keys.length * sharedPrefixLength (key :: keys) =
      96 + ((key :: keys).map fun key => 44 + key.length).sum := by
  have sum : ∀ (list : List Bytes) (shared : Nat), (∀ key ∈ list, shared ≤ key.length) →
      list.length * 8 + (list.map fun key => 4 + key.length - shared + 32).sum +
        list.length * shared = (list.map fun key => 44 + key.length).sum := by
    intro list shared short
    induction list with
    | nil => simp
    | cons key rest ih =>
      obtain ⟨here, behind⟩ := List.forall_mem_cons.1 short
      have next := ih behind
      simp only [List.length_cons, List.map_cons, List.sum_cons, Nat.add_mul, Nat.one_mul]
      omega
  have whole := sum (key :: keys) _ fun other member => (key_split _ member).1
  have split : (key :: keys).length * sharedPrefixLength (key :: keys) =
      keys.length * sharedPrefixLength (key :: keys) + sharedPrefixLength (key :: keys) :=
    Nat.succ_mul _ _
  rw [separatorsLength_eq]
  omega

/-- Nothing is shared at worst. -/
theorem separatorsLength_le (first : Bytes) (keys : List Bytes) :
    separatorsLength (first :: keys) ≤ 96 + (keys.map fun key => 44 + key.length).sum := by
  cases keys with
  | nil => rw [separatorsLength_singleton]; exact Nat.le_add_right _ _
  | cons key keys =>
    have shared := separatorsLength_shared first key keys
    omega

/-- Every separator takes 44 bytes, and each of them is stored with the bytes that all share. -/
theorem le_separatorsLength (member : key ∈ keys) :
    96 + keys.length * 44 + key.length ≤ separatorsLength (first :: keys) := by
  have rooms : ∀ (list : List Bytes) (shared : Nat), (∀ key ∈ list, shared ≤ key.length) →
      key ∈ list → list.length * 36 + key.length ≤
        (list.map fun key => 4 + key.length - shared + 32).sum + shared := by
    intro list shared short inside
    obtain ⟨front, back, rfl⟩ := List.append_of_mem inside
    have others := List.card_nsmul_le_sum
      ((front ++ back).map fun key => 4 + key.length - shared + 32) 36 (by
        intro room taken
        obtain ⟨other, member, rfl⟩ := List.mem_map.1 taken
        have := short other (List.Sublist.mem member (by simp))
        omega)
    simp only [List.map_append, List.map_cons, List.sum_append, List.sum_cons, List.length_append,
      List.length_cons, List.length_map, smul_eq_mul] at others ⊢
    omega
  have whole := rooms keys _ (fun other inKeys => (key_split _ inKeys).1) member
  rw [separatorsLength_eq]
  omega

/-- Fewer keys share no less. -/
theorem sharedPrefixLength_tail (first key : Bytes) (keys : List Bytes) :
    sharedPrefixLength (first :: key :: keys) ≤ sharedPrefixLength (key :: keys) := by
  obtain ⟨short, same⟩ := take_sharedPrefixLength
    (List.mem_cons_of_mem first (List.mem_cons_self (a := key) (l := keys)))
  refine le_sharedPrefixLength.2 ⟨short, fun other member => ?_⟩
  have alike := (take_sharedPrefixLength
    (List.mem_cons_of_mem first (List.mem_cons_of_mem key member))).2
  have common := commonPrefixLength_take key other (sharedPrefixLength (first :: key :: keys))
  rw [alike, ← same, commonPrefixLength_self, List.length_take, Nat.min_eq_left short] at common
  omega

/-- A page over fewer children takes no more room. -/
theorem separatorsLength_tail (first key : Bytes) (keys : List Bytes) :
    separatorsLength (key :: keys) ≤ separatorsLength (first :: key :: keys) := by
  have whole := separatorsLength_shared first key keys
  have short := (key_split _ (List.mem_cons_self (a := key) (l := keys))).1
  cases keys with
  | nil =>
    rw [separatorsLength_singleton, separatorsLength_pair]
    omega
  | cons second rest =>
    have part := separatorsLength_shared key second rest
    have more := Nat.mul_le_mul_left rest.length (sharedPrefixLength_tail key second rest)
    rw [List.length_cons, Nat.succ_mul, List.map_cons, List.sum_cons] at whole
    omega

end Size

/-! ## Pages with one child -/

/-- A key that is short beside a page. -/
def ShortKey (L : Limits) (key : Bytes) : Prop :=
  704 * 184 + 1408 * key.length + key.length ^ 2 ≤ 704 * L.pagePayloadBytes

/-- What is known of the next two children when a page is cut behind its first one: the `count`
pages that follow them share `shared` bytes of their keys, and they overflow the page together with
the first of the two, but take less room than it. -/
def CutBehindOne (L : Limits) (second third : Bytes) : Prop :=
  ∃ count shared, shared ≤ third.length ∧ third.length + 88 * count + shared ≤ second.length ∧
    L.pagePayloadBytes < 184 + 2 * second.length + count * shared

theorem cutBehindOne_of_worse {first second third : Bytes} {rest : List Bytes}
    (overflows : L.pagePayloadBytes < separatorsLength (first :: second :: third :: rest))
    (worse : separatorsLength (second :: third :: rest) - separatorsLength [first] ≤
      (if separatorsLength (third :: rest) < separatorsLength [first, second] then
        separatorsLength [first, second] - separatorsLength (third :: rest)
        else separatorsLength (third :: rest) - separatorsLength [first, second])) :
    CutBehindOne L second third := by
  have right := separatorsLength_tail second third rest
  have worst := separatorsLength_le first (second :: third :: rest)
  have together := separatorsLength_shared second third rest
  have least := @le_separatorsLength second third (third :: rest) List.mem_cons_self
  have begins := (key_split _ (List.mem_cons_self (a := third) (l := rest))).1
  rw [separatorsLength_pair, separatorsLength_singleton] at worse
  rw [List.map_cons, List.sum_cons] at worst
  rw [List.length_cons] at least
  cases rest with
  | nil =>
    refine ⟨0, 0, Nat.zero_le _, ?_, ?_⟩
    · rw [separatorsLength_singleton] at worse right
      rw [separatorsLength_pair] at worse least
      split at worse <;> omega
    · rw [separatorsLength_singleton] at worse
      rw [separatorsLength_pair] at worse together
      rw [List.length_nil, Nat.zero_mul] at together
      split at worse <;> omega
  | cons fourth rest =>
    have behind := @le_separatorsLength third fourth (fourth :: rest) List.mem_cons_self
    have common := (key_split _ (List.mem_cons_of_mem third (List.mem_cons_self (a := fourth)
      (l := rest)))).1
    refine ⟨(fourth :: rest).length, sharedPrefixLength (third :: fourth :: rest), begins, ?_, ?_⟩
    · split at worse <;> omega
    · split at worse <;> omega

/-- Many others that share much take more room than a short key. -/
theorem CutBehindOne.not_short {second third : Bytes} (cut : CutBehindOne L second third) :
    ¬ ShortKey L second := by
  obtain ⟨count, shared, begins, small, overflows⟩ := cut
  intro short
  unfold ShortKey at short
  have product : 704 * (count * shared) ≤ second.length ^ 2 := by
    calc 704 * (count * shared) = 4 * (88 * count) * (2 * shared) := by ring
      _ ≤ (88 * count + 2 * shared) ^ 2 := four_mul_le_sq_add _ _
      _ ≤ second.length ^ 2 := Nat.pow_le_pow_left (by omega) 2
  omega

/-- Beside a key of 4096 bytes they leave no room for a second long one. -/
theorem CutBehindOne.short_third {second third : Bytes} (cut : CutBehindOne L second third)
    (small : second.length ≤ 4096) : ShortKey L third := by
  obtain ⟨count, shared, begins, less, overflows⟩ := cut
  have room := pagePayloadBytes_lower L
  obtain ⟨gap, isGap⟩ := Nat.exists_eq_add_of_le (show third.length ≤ second.length by omega)
  have product : 352 * (count * shared) ≤ gap ^ 2 := by
    calc 352 * (count * shared) = 4 * (88 * count) * shared := by ring
      _ ≤ (88 * count + shared) ^ 2 := four_mul_le_sq_add _ _
      _ ≤ gap ^ 2 := Nat.pow_le_pow_left (by omega) 2
  have wide : 1660 < gap := by
    by_contra narrow
    have := Nat.pow_le_pow_left (Nat.le_of_not_lt narrow) 2
    omega
  have square := Nat.pow_le_pow_left (show third.length ≤ 2435 by omega) 2
  unfold ShortKey
  omega

/-! ## The pages of a level -/

theorem piece_map {α β : Type*} (f : α → β) (items : List α) (range : Nat × Nat) :
    piece (items.map f) range = (piece items range).map f := by
  rw [piece, piece, slice, slice, List.map_take, List.map_drop]

theorem piece_take {α : Type*} (items : List α) (first : Nat) {middle stop : Nat}
    (inside : middle ≤ stop) :
    piece items (first, middle) = (piece items (first, stop)).take (middle - first) := by
  simp only [piece, slice]
  rw [List.take_take, Nat.min_eq_left (Nat.sub_le_sub_right inside first)]

theorem piece_drop {α : Type*} (items : List α) {first middle : Nat} (stop : Nat)
    (behind : first ≤ middle) :
    piece items (middle, stop) = (piece items (first, stop)).drop (middle - first) := by
  simp only [piece, slice]
  rw [List.drop_take, List.drop_drop, Nat.add_sub_cancel' behind, Nat.sub_sub,
    Nat.add_sub_cancel' behind]

theorem piece_getElem? {α : Type*} (items : List α) {first stop index : Nat}
    (inside : first + index < stop) : (piece items (first, stop))[index]? = items[first + index]? := by
  rw [piece, slice, List.getElem?_take_of_lt (by omega), List.getElem?_drop]

theorem piece_two {α : Type*} (items : List α) (index : Nat) :
    piece items (index, index + 2) = [] ∨ (∃ only, piece items (index, index + 2) = [only]) ∨
      ∃ first, ∃ second ∈ items, piece items (index, index + 2) = [first, second] := by
  simp only [piece, slice, show index + 2 - index = 2 by omega]
  rcases drop : items.drop index with - | ⟨first, - | ⟨second, rest⟩⟩
  · exact Or.inl rfl
  · exact Or.inr (Or.inl ⟨first, rfl⟩)
  · have behind : second ∈ items.drop index := by simp [drop]
    exact Or.inr (Or.inr ⟨first, second, List.mem_of_mem_drop behind, rfl⟩)

/-- Keys that leave room for a second child in an internal page. -/
def Shares (L : Limits) (keys : List Bytes) : Prop :=
  ∀ key ∈ keys, 140 + key.length ≤ L.pagePayloadBytes

theorem BestBoundary.cutBehindOne {keys : List Bytes} (shares : Shares L keys) {first stop : Nat}
    (inside : stop ≤ keys.length)
    (overflows : L.pagePayloadBytes < separatorsLength (piece keys (first, stop)))
    (best : BestBoundary L.pagePayloadBytes
      (fun first stop => separatorsLength (piece keys (first, stop))) first stop (first + 1)) :
    ∃ second third, keys[first + 1]? = some second ∧ keys[first + 2]? = some third ∧
      CutBehindOne L second third := by
  have upper := best.upper
  have left := fun boundary => @piece_take _ keys first boundary stop
  have right := fun boundary => @piece_drop _ keys first boundary stop
  have at' := fun index => @piece_getElem? _ keys first stop index
  have count : (piece keys (first, stop)).length = stop - first := by
    simp only [piece, slice, List.length_take, List.length_drop]
    omega
  have room : ∀ key ∈ piece keys (first, stop), 140 + key.length ≤ L.pagePayloadBytes :=
    fun key member => shares key (List.mem_of_mem_drop (List.mem_of_mem_take member))
  generalize piece keys (first, stop) = page at overflows left right at' count room
  rcases page with _ | ⟨leader, _ | ⟨second, _ | ⟨third, rest⟩⟩⟩
  · rw [List.length_nil] at count
    omega
  · rw [List.length_singleton] at count
    omega
  · have fits := room second (by simp)
    rw [separatorsLength_pair] at overflows
    omega
  · simp only [List.length_cons] at count
    refine ⟨second, third, (at' 1 (by omega)).symm, (at' 2 (by omega)).symm,
      cutBehindOne_of_worse overflows ?_⟩
    have atOne : piece keys (first + 1, stop) = second :: third :: rest := by
      rw [right _ (by omega), Nat.add_sub_cancel_left, List.drop_one, List.tail_cons]
    have atTwo : piece keys (first + 2, stop) = third :: rest := by
      rw [right _ (by omega), Nat.add_sub_cancel_left]
      rfl
    have behindOne : piece keys (first, first + 1) = [leader] := by
      rw [left _ (by omega), Nat.add_sub_cancel_left]
      rfl
    have behindTwo : piece keys (first, first + 2) = [leader, second] := by
      rw [left _ (by omega), Nat.add_sub_cancel_left]
      rfl
    have ends := best.right
    have shorter := separatorsLength_tail second third rest
    have least := best.least (first + 2)
      ⟨by omega, by omega, by rw [behindTwo, separatorsLength_pair]; exact room second (by simp),
        by rw [atTwo]; rw [atOne] at ends; exact shorter.trans ends⟩
    have atLeast := separatorsLength_eq second (third :: rest)
    simp only [sideDifference, behindOne, atOne, behindTwo, atTwo] at least
    rwa [if_neg (by rw [separatorsLength_singleton]; omega)] at least

/-- When only a `Lonely` page is cut behind its first child, and never two in a row, a level loses a
third of its pages. -/
theorem BalancedRanges.thirds {capacity count first scan : Nat} {usedLength : Nat → Nat → Nat}
    {Lonely : Nat → Prop} {ranges : List (Nat × Nat)}
    (apart : ∀ {first stop}, stop ≤ count → capacity < usedLength first stop →
      BestBoundary capacity usedLength first stop (first + 1) → Lonely first ∧ ¬ Lonely (first + 1))
    (balanced : BalancedRanges capacity usedLength count first scan ranges)
    (opened : first < scan) :
    3 * ranges.length + 2 * first ≤ 2 * count + 2 ∧
      (¬ Lonely first → 3 * ranges.length + 2 * first ≤ 2 * count + 1) := by
  induction balanced with
  | last first =>
    rw [List.length_singleton]
    omega
  | grow _ _ _ ih => exact ih (by omega)
  | @cut first scan selected ranges more overflows best _ ih =>
    obtain ⟨rest, better⟩ := ih best.upper
    have lower := best.lower
    rw [List.length_cons]
    by_cases single : selected = first + 1
    · subst single
      obtain ⟨lonely, other⟩ := apart more overflows best
      have next := better other
      exact ⟨by omega, fun shared => absurd lonely shared⟩
    · omega

/-! ## Keys of parents -/

/-- Pages over keys: the pieces they are cut into. -/
theorem parentKeys_ranges {keys : List Bytes} (nonempty : keys ≠ []) :
    ∃ ranges, LevelSplit L.pagePayloadBytes separatorsLength keys ranges ∧
      parentKeys L keys = (ranges.map (piece keys)).map (List.headD · []) := by
  have room := pagePayloadBytes_lower L
  obtain ⟨ranges, split⟩ := @levelSplit_exists _ L.pagePayloadBytes separatorsLength keys
    ((pagePayloadBytes_lt L).trans (by decide))
    (by simp [separatorsLength, internalUsedLength, separators, sharedPrefixLength,
          pageLayoutBytes]; omega)
    nonempty (fun key _ => by rw [separatorsLength_singleton]; omega)
  refine ⟨ranges, split, ?_⟩
  rw [parentKeys, splitPages, split.returned]
  rfl

theorem parentKeys_groups {keys : List Bytes} (nonempty : keys ≠ []) :
    ∃ groups, splitPages L.pagePayloadBytes separatorsLength keys = some groups ∧
      parentKeys L keys = groups.map (List.headD · []) ∧ groups.flatten = keys ∧
      (∀ group ∈ groups, group ≠ []) ∧
      ∀ group ∈ groups, separatorsLength group ≤ L.pagePayloadBytes := by
  obtain ⟨ranges, split, isParents⟩ := @parentKeys_ranges L keys nonempty
  exact ⟨_, congrArg (Option.map _) split.returned, isParents, split.consecutive.pieces_eq,
    split.consecutive.pieces_ne_nil, List.forall_mem_map.2 split.fits⟩

theorem parentKeys_ne_nil {keys : List Bytes} (nonempty : keys ≠ []) : parentKeys L keys ≠ [] := by
  obtain ⟨groups, -, eq, whole, -, -⟩ := @parentKeys_groups L keys nonempty
  rw [eq]
  intro none
  rw [List.map_eq_nil_iff.1 none] at whole
  exact nonempty whole.symm

theorem parentKeys_singleton (key : Bytes) : parentKeys L [key] = [key] := rfl

theorem iterate_parentKeys_singleton (turns : Nat) (key : Bytes) :
    (parentKeys L)^[turns] [key] = [key] :=
  Function.iterate_fixed (parentKeys_singleton key) turns

/-- Keys that are one page stay one page. -/
theorem iterate_parentKeys_one {turns : Nat} {keys : List Bytes} (one : keys.length = 1) :
    ((parentKeys L)^[turns] keys).length = 1 := by
  obtain ⟨key, rfl⟩ := List.length_eq_one_iff.1 one
  rw [iterate_parentKeys_singleton]
  rfl

theorem iterate_parentKeys_mono {fewer turns : Nat} {keys : List Bytes} (le : fewer ≤ turns)
    (one : ((parentKeys L)^[fewer] keys).length = 1) :
    ((parentKeys L)^[turns] keys).length = 1 := by
  obtain ⟨more, rfl⟩ := Nat.exists_eq_add_of_le' le
  rw [Function.iterate_add_apply]
  exact iterate_parentKeys_one one

/-- The heads of groups are among the members. -/
theorem heads_sublist {α β : Type*} (minimum : List α → β) (key : α → β)
    {groups : List (List α)} (filled : ∀ group ∈ groups, group ≠ [])
    (isHead : ∀ first rest, minimum (first :: rest) = key first) :
    (groups.map minimum).Sublist (groups.flatten.map key) := by
  induction groups with
  | nil => exact .slnil
  | cons group rest ih =>
    obtain ⟨here, behind⟩ := List.forall_mem_cons.1 filled
    obtain ⟨first, others, rfl⟩ := List.exists_cons_of_ne_nil here
    rw [List.map_cons, isHead, List.flatten_cons, List.cons_append, List.map_cons, List.map_append]
    exact ((ih behind).trans (List.sublist_append_right _ _)).cons_cons _

theorem parentKeys_sublist {keys : List Bytes} (nonempty : keys ≠ []) :
    (parentKeys L keys).Sublist keys := by
  obtain ⟨groups, -, eq, whole, filled, -⟩ := @parentKeys_groups L keys nonempty
  have sub := heads_sublist (List.headD · []) id filled fun _ _ => rfl
  rwa [whole, List.map_id, ← eq] at sub

/-- How many pages a level has at most that begin with keys of up to 4096 bytes and come to one page
within `depth` turns. -/
def mostKeys : Nat → Nat
  | 0 => 1
  | depth + 1 => mostKeys depth + max 1 (mostKeys depth / 2)

theorem parentKeys_fewer {keys : List Bytes} (several : 1 < keys.length) (shares : Shares L keys) :
    (parentKeys L keys).length < keys.length ∧
      ((∀ key ∈ keys, key.length ≤ 4096) → 3 * (parentKeys L keys).length ≤ 2 * keys.length + 2) := by
  have room := pagePayloadBytes_lower L
  obtain ⟨ranges, split, isParents⟩ := @parentKeys_ranges L keys
    (List.ne_nil_of_length_pos (by omega))
  rw [isParents, List.length_map, List.length_map]
  refine ⟨split.balanced.length_lt Nat.zero_lt_one (fun index => ?_) (Or.inr several),
    fun small => ?_⟩
  · rcases piece_two keys index with none | ⟨only, one⟩ | ⟨first, second, member, two⟩
    · rw [none]
      simp [separatorsLength, internalUsedLength, separators, sharedPrefixLength, pageLayoutBytes]
      omega
    · rw [one, separatorsLength_singleton]
      omega
    · rw [two, separatorsLength_pair]
      exact shares second member
  · refine (@BalancedRanges.thirds _ _ _ _ _
      (fun first => ∃ key, keys[first + 1]? = some key ∧ ¬ ShortKey L key) _ ?_ split.balanced
      Nat.zero_lt_one).1
    intro first stop inside overflows best
    obtain ⟨second, third, isSecond, isThird, cut⟩ := best.cutBehindOne shares inside overflows
    refine ⟨⟨second, isSecond, cut.not_short⟩, ?_⟩
    rintro ⟨key, isKey, long⟩
    obtain rfl : third = key := Option.some.inj (isThird.symm.trans isKey)
    exact long (cut.short_third (small second (List.mem_of_getElem? isSecond)))

/-- Keys whose levels come to one page within `depth` turns: any two share an internal page, and
they are few, or no longer than 4096 bytes and not too many. -/
structure Climbs (L : Limits) (depth : Nat) (keys : List Bytes) : Prop where
  shares : Shares L keys
  few : keys.length ≤ depth + 1 ∨
    (∀ key ∈ keys, key.length ≤ 4096) ∧ keys.length ≤ mostKeys depth

theorem Climbs.sublist {depth : Nat} {keys fewer : List Bytes} (climbs : Climbs L depth keys)
    (sub : fewer.Sublist keys) : Climbs L depth fewer := by
  refine ⟨fun key member => climbs.shares key (sub.mem member), ?_⟩
  rcases climbs.few with few | ⟨small, few⟩
  · exact Or.inl (sub.length_le.trans few)
  · exact Or.inr ⟨fun key member => small key (sub.mem member), sub.length_le.trans few⟩

theorem Climbs.parentKeys {depth : Nat} {keys : List Bytes} (climbs : Climbs L (depth + 1) keys)
    (several : 1 < keys.length) : Climbs L depth (parentKeys L keys) := by
  obtain ⟨less, third⟩ := parentKeys_fewer several climbs.shares
  have sub := @parentKeys_sublist L keys (List.ne_nil_of_length_pos (by omega))
  refine ⟨fun key member => climbs.shares key (sub.mem member), ?_⟩
  rcases climbs.few with few | ⟨small, few⟩
  · exact Or.inl (by omega)
  · refine Or.inr ⟨fun key member => small key (sub.mem member), ?_⟩
    have fewer := third small
    rw [mostKeys] at few
    omega

theorem iterate_parentKeys_of_climbs {depth : Nat} {keys : List Bytes} (nonempty : keys ≠ [])
    (climbs : Climbs L depth keys) : ((parentKeys L)^[depth] keys).length = 1 := by
  have filled := List.length_pos_iff.2 nonempty
  induction depth generalizing keys with
  | zero =>
    change keys.length = 1
    rcases climbs.few with few | ⟨-, few⟩
    · omega
    · rw [mostKeys] at few
      omega
  | succ depth ih =>
    by_cases single : keys.length = 1
    · exact iterate_parentKeys_one single
    · rw [Function.iterate_succ_apply]
      have some := @parentKeys_ne_nil L keys nonempty
      exact ih some (climbs.parentKeys (by omega)) (List.length_pos_iff.2 some)

/-! ## The growth loop -/

/-- Two levels that look the same to the size function are cut at the same places. -/
theorem splitPages_congr {α β γ : Type*} {f : α → γ} {g : β → γ} {capacity : Nat}
    {size : List α → Nat} {size' : List β → Nat}
    (same : ∀ left right, left.map f = right.map g → size left = size' right)
    {items : List α} {items' : List β} (alike : items.map f = items'.map g) :
    (splitPages capacity size items).map (List.map (List.map f)) =
      (splitPages capacity size' items').map (List.map (List.map g)) := by
  have lengths : items.length = items'.length := by
    simpa using congrArg List.length alike
  have pieces : ∀ range, (piece items range).map f = (piece items' range).map g := by
    intro range
    rw [← piece_map, ← piece_map, alike]
  have sizes : (fun first stop => size (piece items (first, stop))) =
      fun first stop => size' (piece items' (first, stop)) := by
    funext first stop
    exact same _ _ (pieces (first, stop))
  rw [splitPages, splitPages, sizes, lengths, Option.map_map, Option.map_map]
  congr 1
  funext ranges
  simp [pieces]

/-- Nodes of any kind are cut as their keys are. -/
theorem splitPages_parentKeys {α : Type*} {key : α → Bytes} {size : List α → Nat}
    (same : ∀ group, size group = separatorsLength (group.map key)) {nodes : List α}
    (nonempty : nodes ≠ []) :
    ∃ pages, splitPages L.pagePayloadBytes size nodes = some pages ∧
      parentKeys L (nodes.map key) = pages.map fun page => (page.map key).headD [] := by
  obtain ⟨groups, split, isParents, -, -, -⟩ := @parentKeys_groups L (nodes.map key)
    (by simpa using nonempty)
  have cuts := @splitPages_congr _ _ _ key id L.pagePayloadBytes size separatorsLength
    (fun left right alike => by rw [same, alike, List.map_id])
    nodes (nodes.map key) (by rw [List.map_id])
  rw [split, Option.map_some] at cuts
  obtain ⟨pages, found, isGroups⟩ := Option.map_eq_some_iff.1 cuts
  have isPages : groups = pages.map (List.map key) := by
    simpa using isGroups.symm
  refine ⟨pages, found, ?_⟩
  rw [isParents, isPages, List.map_map]
  rfl

theorem levelUp_keys {role kind : Nat} {nodes parents : List PreparedTreeNode} {state after : σ}
    (up : levelUp L role kind place nodes state = .ok (parents, after)) :
    parents.map PreparedTreeNode.minimumKey =
      parentKeys L (nodes.map PreparedTreeNode.minimumKey) := by
  obtain ⟨nonempty, pages, split, placed⟩ := levelUp_ok up
  obtain ⟨cuts, found, isParents⟩ := @splitPages_parentKeys L _ _ _ internalUsedLength_keys _
    nonempty
  obtain rfl : cuts = pages := Option.some.inj (found.symm.trans split)
  rw [placePages_minimumKeys placed, isParents]
  apply List.map_congr_left
  intro page _
  cases page <;> rfl

theorem levelUp_ne_nil {role kind : Nat} {nodes parents : List PreparedTreeNode} {state after : σ}
    (up : levelUp L role kind place nodes state = .ok (parents, after)) : parents ≠ [] := by
  rintro rfl
  exact parentKeys_ne_nil (by simpa using (levelUp_ok up).1) (levelUp_keys up).symm

/-- What the growth loop does is decided by the keys: after `turns` divisions one page is left or
the loop goes on; and the root is at the level after which one page is left. -/
theorem growRoot_divides {role kind turns level : Nat} {nodes : List PreparedTreeNode} {state : σ}
    (nonempty : nodes ≠ []) (levels : ∀ node ∈ nodes, node.level = level) :
    match growRoot L role kind place turns nodes state with
    | .error error => error = .endless ∧
        ((parentKeys L)^[turns] (nodes.map PreparedTreeNode.minimumKey)).length ≠ 1
    | .ok (root, _) => level ≤ root.level ∧ ∀ divisions,
        ((parentKeys L)^[divisions] (nodes.map PreparedTreeNode.minimumKey)).length = 1 ↔
          root.level ≤ level + divisions := by
  induction turns generalizing nodes state level with
  | zero =>
    by_cases single : nodes.length = 1
    · obtain ⟨only, rfl⟩ := List.length_eq_one_iff.1 single
      obtain rfl := levels only List.mem_cons_self
      rw [growRoot_singleton]
      exact ⟨le_rfl, fun divisions => iff_of_true (iterate_parentKeys_one rfl) (by omega)⟩
    · rw [growRoot.eq_2]
      · exact ⟨rfl, by simpa using single⟩
      · rintro only rfl
        exact single rfl
  | succ turns ih =>
    by_cases single : nodes.length = 1
    · obtain ⟨only, rfl⟩ := List.length_eq_one_iff.1 single
      obtain rfl := levels only List.mem_cons_self
      rw [growRoot_singleton]
      exact ⟨le_rfl, fun divisions => iff_of_true (iterate_parentKeys_one rfl) (by omega)⟩
    · obtain ⟨parents, after, up⟩ := @levelUp_complete _ L place role kind nodes nonempty state
      have keys := levelUp_keys up
      have next := @ih (level + 1) parents after (levelUp_ne_nil up) (levelUp_levels levels up)
      rw [growRoot_several single, up]
      dsimp only
      rw [keys] at next
      cases grown : growRoot L role kind place turns parents after with
      | error error =>
        rw [grown] at next
        exact next
      | ok result =>
        rw [grown] at next
        obtain ⟨above, divides⟩ := next
        refine ⟨by omega, fun divisions => ?_⟩
        cases divisions with
        | zero => exact iff_of_false (by simpa using single) (by omega)
        | succ divisions =>
          rw [Function.iterate_succ_apply, divides divisions]
          omega

/-- As many turns as there are nodes are enough. -/
theorem growRoot_complete {role kind turns level : Nat} {nodes : List PreparedTreeNode} {state : σ}
    (nonempty : nodes ≠ []) (levels : ∀ node ∈ nodes, node.level = level)
    (shares : Shares L (nodes.map PreparedTreeNode.minimumKey)) (enough : nodes.length ≤ turns) :
    ∃ root after, growRoot L role kind place turns nodes state = .ok (root, after) := by
  have divides := @growRoot_divides _ L place role kind turns level nodes state nonempty levels
  cases grown : growRoot L role kind place turns nodes state with
  | ok result => exact ⟨result.1, result.2, rfl⟩
  | error error =>
    rw [grown] at divides
    refine absurd (iterate_parentKeys_of_climbs (by simpa using nonempty) ⟨shares, Or.inl ?_⟩)
      divides.2
    rw [List.length_map]
    exact enough.trans (Nat.le_succ turns)

end Miare
