import Miare.Cursor.Proofs.Movement

/-!
# Cursors refine positions in a sorted list

The entries of the tree within the range of a cursor are a segment of all its entries.  A cursor
answers every call as a position in that segment does.
-/

namespace Miare

open Misc

/-! ## Positions in a list -/

/-- A list of entries and a position in it. -/
structure ListCursor where
  entries : List (Bytes × Bytes)
  position : Option Nat := none

namespace ListCursor

/-- Go to a position, if the list has it. -/
def moveTo (cursor : ListCursor) (target : Option Nat) : Bool × ListCursor :=
  let position := target.filter (· < cursor.entries.length)
  (position.isSome, { cursor with position })

/-- The calls of a cursor on a list. -/
def call (L : Limits) (cursor : ListCursor) : CursorCall → Except CursorError (Bool × ListCursor)
  | .first => .ok (cursor.moveTo (some 0))
  | .last => .ok (cursor.moveTo (some (cursor.entries.length - 1)))
  | .seekLowerBound key => do
    require .keyTooLong (key.length ≤ L.maxKeyBytes)
    pure (cursor.moveTo (some (lowerIndex Prod.fst key cursor.entries)))
  | .next =>
    match cursor.position with
    | none => .error .unpositioned
    | some position => .ok (cursor.moveTo (some (position + 1)))
  | .previous =>
    match cursor.position with
    | none => .error .unpositioned
    | some position => .ok (cursor.moveTo (if position = 0 then none else some (position - 1)))

/-- The entry at the position. -/
def current (cursor : ListCursor) : Option (Bytes × Bytes) :=
  cursor.position.bind fun position => cursor.entries[position]?

def observe (L : Limits) (cursor : ListCursor) (call_ : CursorCall) :
    (Except CursorError Bool × Option (Bytes × Bytes)) × ListCursor :=
  match cursor.call L call_ with
  | .error error => ((.error error, cursor.current), cursor)
  | .ok (answer, moved) => ((.ok answer, moved.current), moved)

def run (L : Limits) : ListCursor → List CursorCall →
    List (Except CursorError Bool × Option (Bytes × Bytes))
  | _, [] => []
  | cursor, call_ :: rest =>
    let (seen, moved) := cursor.observe L call_
    seen :: run L moved rest

/-- Behind the end there is no position. -/
theorem moveTo_none {cursor : ListCursor} {position : Nat}
    (behind : cursor.entries.length ≤ position) :
    cursor.moveTo (some position) = cursor.moveTo none := by
  simp [moveTo, Option.filter, behind]

theorem moveTo_some {cursor : ListCursor} {position : Nat}
    (inside : position < cursor.entries.length) :
    cursor.moveTo (some position) = (true, { cursor with position := some position }) := by
  simp [moveTo, Option.filter, inside]

/-- The calls from an entry to behind the last. -/
theorem run_next (L : Limits) (front : List (Bytes × Bytes)) (here : Bytes × Bytes)
    (rest : List (Bytes × Bytes)) :
    run L { entries := front ++ here :: rest, position := some front.length }
        (List.replicate (rest.length + 1) .next) =
      rest.map (fun entry => (.ok true, some entry)) ++ [(.ok false, none)] := by
  induction rest generalizing front here with
  | nil =>
    have behind : (front ++ [here]).length ≤ front.length + 1 := by simp
    have stopped := @moveTo_none ⟨front ++ [here], some front.length⟩ _ behind
    simp only [List.length_nil, Nat.zero_add, List.replicate_one, run, observe, call, stopped]
    rfl
  | cons entry rest ih =>
    have inside : front.length + 1 < (front ++ here :: entry :: rest).length := by simp
    have moved := @moveTo_some ⟨front ++ here :: entry :: rest, some front.length⟩ _ inside
    have further := ih (front ++ [here]) entry
    rw [List.append_assoc, List.singleton_append, List.length_append, List.length_singleton] at further
    rw [List.length_cons, List.replicate_succ, run, observe, call]
    simp only [moved, further, List.map_cons, List.cons_append]
    simp [current]

/-- A scan from the first entry to behind the last sees each entry once, in order. -/
theorem run_scan (L : Limits) (entries : List (Bytes × Bytes)) :
    run L { entries } (.first :: List.replicate entries.length .next) =
      entries.map (fun entry => (.ok true, some entry)) ++ [(.ok false, none)] := by
  cases entries with
  | nil => rfl
  | cons entry rest =>
    rw [List.map_cons, List.cons_append, ← run_next L [] entry rest]
    rfl

end ListCursor

/-! ## The segment of a cursor -/

namespace OrderedCursor

variable {cursor : OrderedCursor} {target : Option Nat} {move : Moved}

/-- Where the range begins among all values. -/
def start (cursor : OrderedCursor) : Nat :=
  lowerStart MutableTreeValue.key cursor.lower cursor.values

/-- Where the range ends. -/
def stop (cursor : OrderedCursor) : Nat :=
  upperStop MutableTreeValue.key cursor.upper cursor.values

/-- The entries within the range. -/
def entries (cursor : OrderedCursor) : List (Bytes × Bytes) :=
  ((cursor.values.drop cursor.start).take (cursor.stop - cursor.start)).map MutableTreeValue.pair

theorem stop_le_length : cursor.stop ≤ cursor.values.length := upperStop_le_length _

theorem length_entries : cursor.entries.length = cursor.stop - cursor.start := by
  have le := @stop_le_length cursor
  simp only [entries, List.length_map, List.length_take, List.length_drop]
  omega

theorem SameRange.start_eq {other : OrderedCursor} (same : SameRange cursor other) :
    other.start = cursor.start := by
  rw [start, start, same.lower, values, values, same.root]

theorem SameRange.stop_eq {other : OrderedCursor} (same : SameRange cursor other) :
    other.stop = cursor.stop := by
  rw [stop, stop, same.upper, values, values, same.root]

theorem SameRange.entries_eq {other : OrderedCursor} (same : SameRange cursor other) :
    other.entries = cursor.entries := by
  rw [entries, entries, same.start_eq, same.stop_eq, values, values, same.root]

/-! ## Checks of the bounds -/

/-- A check that keeps some positions and leaves the others. -/
theorem andAccept_lands {accept : OrderedCursor → Moved} {keeps : Nat → Bool}
    (checks : ∀ {other position value}, SameRange cursor other →
      cursor.values[position]? = some value → other.currentValue = .ok value →
      accept other = .ok (if keeps position then (true, other) else other.leave))
    (moves : ∃ moved, move = .ok moved ∧ cursor.Lands target moved) :
    ∃ accepted, (move >>= andAccept accept) = .ok accepted ∧
      cursor.Lands (target.filter keeps) accepted := by
  obtain ⟨⟨answer, other⟩, rfl, same, rest⟩ := moves
  rw [ok_bind]
  cases target with
  | none =>
    obtain ⟨rfl, -⟩ := rest
    exact ⟨other.leave, rfl, ⟨same.root, same.lower, same.upper⟩, rfl, rfl⟩
  | some position =>
    obtain ⟨rfl, positioned, stands⟩ := rest
    obtain ⟨value, current, found⟩ := stands.currentValue_eq
    rw [values, same.root] at found
    rw [andAccept, if_pos rfl, checks same found current, Option.filter]
    cases keeps position with
    | true => exact ⟨_, rfl, same, rfl, positioned, stands⟩
    | false => exact ⟨_, rfl, ⟨same.root, same.lower, same.upper⟩, rfl, rfl⟩

section Checks

variable (shaped : cursor.root.tree.Shaped)

include shaped

/-- `acceptUpperBound` keeps the positions before the end of the range. -/
theorem andAccept_upper (moves : ∃ moved, move = .ok moved ∧ cursor.Lands target moved) :
    ∃ accepted, (move >>= andAccept acceptUpperBound) = .ok accepted ∧
      cursor.Lands (target.filter (· < cursor.stop)) accepted := by
  refine andAccept_lands (fun {other position value} same found current => ?_) moves
  rw [acceptUpperBound, same.upper, stop, upperStop]
  cases cursor.upper with
  | none => simp [(List.getElem?_eq_some_iff.1 found).1]
  | some upper =>
    have bound : position < lowerIndex MutableTreeValue.key upper cursor.values ↔
        value.key < upper := shaped.increasing.lt_lowerIndex_iff found
    by_cases less : value.key < upper <;> simp [current, bound, less]

/-- `acceptLowerBound` keeps the positions from the start of the range on. -/
theorem andAccept_lower (moves : ∃ moved, move = .ok moved ∧ cursor.Lands target moved) :
    ∃ accepted, (move >>= andAccept acceptLowerBound) = .ok accepted ∧
      cursor.Lands (target.filter (cursor.start ≤ ·)) accepted := by
  refine andAccept_lands (fun {other position value} same found current => ?_) moves
  rw [acceptLowerBound, same.lower, start, lowerStart]
  cases cursor.lower with
  | none => simp
  | some lower =>
    have bound : position < lowerIndex MutableTreeValue.key lower cursor.values ↔
        value.key < lower := shaped.increasing.lt_lowerIndex_iff found
    by_cases less : value.key < lower <;> simp [current, ← not_lt, bound, less]

/-! ## Calls

Each call lands on a position of the segment, or the segment does not have the position. -/

/-- A position of the segment. -/
def inSegment (cursor : OrderedCursor) (position : Nat) : Option Nat :=
  if cursor.start ≤ position ∧ position < cursor.stop then some position else none

theorem first_lands :
    ∃ moved, cursor.first = .ok moved ∧ cursor.Lands (cursor.inSegment cursor.start) moved := by
  have segment : (inList cursor.values.length cursor.start).filter (· < cursor.stop) =
      cursor.inSegment cursor.start := by
    have le := @stop_le_length cursor
    grind [inList, inSegment]
  rw [← segment, first, start, lowerStart]
  cases cursor.lower with
  | none => exact andAccept_upper shaped ⟨_, rfl, descendLeft_lands shaped⟩
  | some lower => exact andAccept_upper shaped (descendLowerBound_lands shaped lower)

theorem lastBefore_lands (upper : Bytes) :
    ∃ moved, cursor.lastBefore upper = .ok moved ∧
      cursor.Lands (stepBack (lowerIndex MutableTreeValue.key upper cursor.values)) moved := by
  obtain ⟨⟨found, behind⟩, descends, same, lands⟩ := descendLowerBound_lands shaped upper
  have shaped' : behind.root.tree.Shaped := by
    rw [same.root]
    exact shaped
  have le : lowerIndex MutableTreeValue.key upper cursor.values ≤ cursor.values.length :=
    lowerIndex_le_length
  rw [lastBefore, descends, ok_bind]
  by_cases inside : lowerIndex MutableTreeValue.key upper cursor.values < cursor.values.length
  · rw [inList, if_pos inside] at lands
    obtain ⟨rfl, positioned, stands⟩ := lands
    obtain ⟨moved, moves, lands⟩ := moveToPreviousValue_lands shaped' positioned stands
    exact ⟨moved, moves, lands.of_sameRange same⟩
  · rw [inList, if_neg inside] at lands
    obtain ⟨rfl, -⟩ := lands
    have lands := (descendRight_lands shaped').of_sameRange same
    rw [values, same.root] at lands
    rw [le_antisymm le (not_lt.1 inside)]
    exact ⟨_, rfl, lands⟩

theorem last_lands :
    ∃ moved, cursor.last = .ok moved ∧ cursor.Lands (cursor.inSegment (cursor.stop - 1)) moved := by
  have segment : (stepBack cursor.stop).filter (cursor.start ≤ ·) =
      cursor.inSegment (cursor.stop - 1) := by
    grind [inSegment, stepBack]
  rw [← segment, last, stop, upperStop]
  cases cursor.upper with
  | none => exact andAccept_lower shaped ⟨_, rfl, descendRight_lands shaped⟩
  | some upper => exact andAccept_lower shaped (lastBefore_lands shaped upper)

theorem seekLowerBound_lands {L : Limits} {key : Bytes} (fits : key.length ≤ L.maxKeyBytes) :
    ∃ moved, cursor.seekLowerBound L key = .ok moved ∧
      cursor.Lands (cursor.inSegment
        (max cursor.start (lowerIndex MutableTreeValue.key key cursor.values))) moved := by
  have segment : (inList cursor.values.length (max cursor.start
      (lowerIndex MutableTreeValue.key key cursor.values))).filter (· < cursor.stop) =
      cursor.inSegment (max cursor.start (lowerIndex MutableTreeValue.key key cursor.values)) := by
    have le := @stop_le_length cursor
    grind [inList, inSegment]
  rw [← segment, seekLowerBound, require_of fits, ok_bind, start, lowerStart]
  cases cursor.lower with
  | none =>
    rw [Option.map_none, Option.getD_none, Nat.zero_max]
    exact andAccept_upper shaped (descendLowerBound_lands shaped key)
  | some lower =>
    have sought : (if key < lower then lower else key) = max lower key := by
      rcases lt_or_ge key lower with less | notLess
      · rw [if_pos less, max_eq_left less.le]
      · rw [if_neg (not_lt.2 notLess), max_eq_right notLess]
    rw [Option.map_some, Option.getD_some, ← lowerIndex_max, ← sought]
    exact andAccept_upper shaped (descendLowerBound_lands shaped _)

theorem next_lands {position : Nat} (positioned : cursor.positioned = true)
    (stands : cursor.Stands position) (inside : cursor.start ≤ position) :
    ∃ moved, cursor.next = .ok moved ∧ cursor.Lands (cursor.inSegment (position + 1)) moved := by
  have segment : (inList cursor.values.length (position + 1)).filter (· < cursor.stop) =
      cursor.inSegment (position + 1) := by
    have le := @stop_le_length cursor
    grind [inList, inSegment]
  rw [← segment, next, require_of positioned, ok_bind]
  exact andAccept_upper shaped (moveToNextValue_lands shaped positioned stands)

theorem previous_lands {position : Nat} (positioned : cursor.positioned = true)
    (stands : cursor.Stands position) :
    ∃ moved, cursor.previous = .ok moved ∧
      cursor.Lands ((stepBack position).filter (cursor.start ≤ ·)) moved := by
  rw [previous, require_of positioned, ok_bind]
  exact andAccept_lower shaped (moveToPreviousValue_lands shaped positioned stands)

end Checks

/-! ## Simulation -/

/-- A cursor over a well-formed tree and a position in the list of the entries within its range. -/
structure Refines (cursor : OrderedCursor) (list : ListCursor) : Prop where
  shaped : cursor.root.tree.Shaped
  entries_eq : list.entries = cursor.entries
  position : match list.position with
    | none => cursor.positioned = false
    | some position => cursor.positioned = true ∧ cursor.Stands (cursor.start + position) ∧
        position < cursor.entries.length

variable {list : ListCursor} {L : Limits}

/-- A movement within the segment is a movement of the position. -/
theorem Refines.lands (refines : Refines cursor list) {moved : Bool × OrderedCursor}
    (lands : cursor.Lands target moved)
    (inside : ∀ position ∈ target, cursor.start ≤ position ∧ position < cursor.stop) :
    ∃ list', list.moveTo (target.map (· - cursor.start)) = (moved.1, list') ∧
      Refines moved.2 list' := by
  obtain ⟨same, rest⟩ := lands
  have shaped : moved.2.root.tree.Shaped := by
    rw [same.root]
    exact refines.shaped
  have entries_eq : list.entries = moved.2.entries := refines.entries_eq.trans same.entries_eq.symm
  cases target with
  | none =>
    refine ⟨{ list with position := none }, ?_, shaped, entries_eq, rest.2⟩
    rw [rest.1]
    rfl
  | some position =>
    obtain ⟨answer, positioned, stands⟩ := rest
    obtain ⟨low, high⟩ := inside position rfl
    have within : position - cursor.start < list.entries.length := by
      rw [refines.entries_eq, length_entries]
      omega
    refine ⟨{ list with position := some (position - cursor.start) }, ?_, shaped, entries_eq,
      positioned, ?_, entries_eq ▸ within⟩
    · simp [ListCursor.moveTo, Option.filter, within, answer]
    · rw [same.start_eq, Nat.add_sub_cancel' low]
      exact stands

theorem Refines.lands_inSegment (refines : Refines cursor list) {moved : Bool × OrderedCursor}
    {position : Nat} (lands : cursor.Lands (cursor.inSegment position) moved) {index : Nat}
    (here : cursor.start ≤ position → position < cursor.stop → index = position - cursor.start)
    (outside : ¬ (cursor.start ≤ position ∧ position < cursor.stop) →
      cursor.stop - cursor.start ≤ index) :
    ∃ list', list.moveTo (some index) = (moved.1, list') ∧ Refines moved.2 list' := by
  by_cases inside : cursor.start ≤ position ∧ position < cursor.stop
  · rw [inSegment, if_pos inside] at lands
    rw [here inside.1 inside.2]
    refine refines.lands lands fun other isPosition => ?_
    rwa [← Option.some.inj isPosition]
  · rw [inSegment, if_neg inside] at lands
    rw [ListCursor.moveTo_none (by
      rw [refines.entries_eq, length_entries]
      exact outside inside)]
    exact refines.lands lands (by simp)

/-- The search in the segment. -/
theorem lowerIndex_entries (shaped : cursor.root.tree.Shaped) (key : Bytes) :
    lowerIndex Prod.fst key cursor.entries = min (cursor.stop - cursor.start)
      (lowerIndex MutableTreeValue.key key cursor.values - cursor.start) := by
  have later : Increasing MutableTreeValue.key (cursor.values.drop cursor.start) :=
    List.Pairwise.sublist (List.drop_sublist _ _) shaped.increasing
  rw [← shaped.increasing.lowerIndex_drop, ← later.lowerIndex_take, entries, lowerIndex_map]
  rfl

/-- Calls agree: both refuse with one error, or both answer alike and still agree. -/
def Agree (moved : Moved) (listMoved : Except CursorError (Bool × ListCursor)) : Prop :=
  match moved, listMoved with
  | .error error, .error listError => error = listError
  | .ok (answer, cursor), .ok (listAnswer, list) => answer = listAnswer ∧ Refines cursor list
  | _, _ => False

theorem agree_ok {moved : Bool × OrderedCursor} {listMoved : Bool × ListCursor}
    (moves : ∃ list', listMoved = (moved.1, list') ∧ Refines moved.2 list') :
    Agree (.ok moved) (.ok listMoved) := by
  obtain ⟨list', rfl, refines⟩ := moves
  exact ⟨rfl, refines⟩

theorem Refines.call_next (refines : Refines cursor list) :
    Agree cursor.next (list.call L .next) := by
  have position := refines.position
  simp only [ListCursor.call]
  cases isPosition : list.position with
  | none =>
    rw [isPosition] at position
    rw [next, position]
    rfl
  | some index =>
    rw [isPosition] at position
    obtain ⟨positioned, stands, inside⟩ := position
    obtain ⟨moved, moves, lands⟩ := next_lands refines.shaped positioned stands (by omega)
    rw [moves]
    apply agree_ok
    rw [length_entries] at inside
    exact refines.lands_inSegment lands (by omega) (by omega)

theorem Refines.call_previous (refines : Refines cursor list) :
    Agree cursor.previous (list.call L .previous) := by
  have position := refines.position
  simp only [ListCursor.call]
  cases isPosition : list.position with
  | none =>
    rw [isPosition] at position
    rw [previous, position]
    rfl
  | some index =>
    rw [isPosition] at position
    obtain ⟨positioned, stands, inside⟩ := position
    obtain ⟨moved, moves, lands⟩ := previous_lands refines.shaped positioned stands
    rw [length_entries] at inside
    have target : (if index = 0 then none else some (index - 1)) =
        ((stepBack (cursor.start + index)).filter (cursor.start ≤ ·)).map (· - cursor.start) := by
      grind [stepBack]
    rw [moves]
    dsimp only
    rw [target]
    apply agree_ok
    refine refines.lands lands fun other isOther => ?_
    grind [stepBack]

/-- One call of a cursor is the call on the list. -/
theorem Refines.call (refines : Refines cursor list) (call_ : CursorCall) :
    Agree (cursor.call L call_) (list.call L call_) := by
  cases call_ with
  | first =>
    obtain ⟨moved, moves, lands⟩ := first_lands refines.shaped
    rw [OrderedCursor.call, moves]
    exact agree_ok (refines.lands_inSegment lands (by omega) (by omega))
  | last =>
    obtain ⟨moved, moves, lands⟩ := last_lands refines.shaped
    rw [OrderedCursor.call, moves]
    apply agree_ok
    rw [refines.entries_eq, length_entries]
    exact refines.lands_inSegment lands (by omega) (by omega)
  | seekLowerBound key =>
    by_cases fits : key.length ≤ L.maxKeyBytes
    · obtain ⟨moved, moves, lands⟩ := seekLowerBound_lands refines.shaped fits
      rw [OrderedCursor.call, moves, ListCursor.call, require_of fits, ok_bind]
      apply agree_ok
      rw [refines.entries_eq, lowerIndex_entries refines.shaped]
      exact refines.lands_inSegment lands (by omega) (by omega)
    · rw [OrderedCursor.call, ListCursor.call, seekLowerBound]
      simp only [require, fits]
      rfl
  | next => exact refines.call_next
  | previous => exact refines.call_previous

/-- Both stand on the same key and value. -/
theorem Refines.current_eq (refines : Refines cursor list) : cursor.current = list.current := by
  have position := refines.position
  rw [ListCursor.current]
  cases isPosition : list.position with
  | none =>
    rw [isPosition] at position
    rw [current, position]
    rfl
  | some index =>
    rw [isPosition] at position
    obtain ⟨positioned, stands, inside⟩ := position
    obtain ⟨value, current_, found⟩ := stands.currentValue_eq
    rw [length_entries] at inside
    rw [current, if_pos positioned, current_, Option.bind_some, refines.entries_eq, entries,
      List.getElem?_map, List.getElem?_take_of_lt inside, List.getElem?_drop, found]
    rfl

/-- A whole run of calls shows the same on both. -/
theorem Refines.run_eq (refines : Refines cursor list) (calls : List CursorCall) :
    cursor.run L calls = list.run L calls := by
  induction calls generalizing cursor list with
  | nil => rfl
  | cons call_ rest ih =>
    have agree := @refines.call _ _ L call_
    rw [run, ListCursor.run, observe, ListCursor.observe]
    generalize cursor.call L call_ = moved at agree ⊢
    generalize list.call L call_ = listMoved at agree ⊢
    cases moved with
    | error error =>
      cases listMoved with
      | error listError =>
        obtain rfl : error = listError := agree
        simp only [refines.current_eq, ih refines]
      | ok => exact agree.elim
    | ok moved =>
      cases listMoved with
      | error => exact agree.elim
      | ok listMoved =>
        obtain ⟨answer, moved⟩ := moved
        obtain ⟨listAnswer, listMoved⟩ := listMoved
        obtain ⟨rfl, refines'⟩ : answer = listAnswer ∧ Refines moved listMoved := agree
        simp only [refines'.current_eq, ih refines']

/-- A new cursor is unpositioned. -/
theorem refines_new (shaped : cursor.root.tree.Shaped) (isNew : cursor.positioned = false) :
    Refines cursor { entries := cursor.entries } :=
  ⟨shaped, rfl, isNew⟩

/-- The entries within the range, as a selection of all. -/
theorem entries_eq_filter (shaped : cursor.root.tree.Shaped) :
    cursor.entries = cursor.root.tree.pairs.filter fun entry =>
      decide (Within cursor.lower cursor.upper entry.1) := by
  rw [entries, start, stop, ← shaped.increasing.filter_within, MutableTree.pairs, List.filter_map]
  rfl

end OrderedCursor

end Miare
