import Miare.Cursor.Proofs.Refinement

/-!
# Ranges of cursors

The bounds that `makeOrderedCursor` computes for a range hold for exactly the keys of the range.
-/

namespace Miare

open Misc

/-- The keys of a range. -/
def OrderedRange.Contains : OrderedRange → Bytes → Prop
  | .all, _ => True
  | .halfOpen lower upper, key => Within lower upper key
  | .startsWith head, key => head <+: key

instance OrderedRange.decidableContains (range : OrderedRange) (key : Bytes) :
    Decidable (range.Contains key) :=
  match range with
  | .all => inferInstanceAs (Decidable True)
  | .halfOpen lower upper => inferInstanceAs (Decidable (Within lower upper key))
  | .startsWith head => inferInstanceAs (Decidable (head <+: key))

/-! ## Prefixes -/

theorem prefixUpperBound_nil : prefixUpperBound [] = none := rfl

/-- The bound of a longer prefix: only when the rest has none does the first byte count. -/
theorem prefixUpperBound_cons (byte : Byte) (rest : Bytes) :
    prefixUpperBound (byte :: rest) =
      match prefixUpperBound rest with
      | some upper => some (byte :: upper)
      | none => if byte = 255 then none else some [byte + 1] := by
  simp only [prefixUpperBound, List.reverse_cons, List.dropWhile_append]
  cases rest.reverse.dropWhile (· = 255) with
  | nil =>
    by_cases last : byte = 255
    · simp [last]
    · simp [last]
  | cons back front => simp

theorem lt_succ_byte {byte other : Byte} (notLast : byte ≠ 255) : other < byte + 1 ↔ other ≤ byte := by
  have small : byte.val + 1 < 256 := by
    have : byte.val ≠ 255 := fun equal => notLast (Fin.ext equal)
    omega
  rw [Fin.lt_def, Fin.le_def, Fin.val_add, Fin.val_one, Nat.mod_eq_of_lt small, Nat.lt_succ_iff]

theorem cons_le_cons_bytes {byte other : Byte} {bytes others : Bytes} :
    byte :: bytes ≤ other :: others ↔ byte < other ∨ byte = other ∧ bytes ≤ others := by
  rw [← not_lt, List.cons_lt_cons_iff, ← not_lt (a := others)]
  rcases lt_trichotomy byte other with less | rfl | greater
  · simp [less, less.asymm, less.ne']
  · simp
  · simp [greater, greater.asymm, greater.ne']

/-- The bounds of a prefix, also of one that ends in bytes 0xff or has no others. -/
theorem within_prefixUpperBound (head key : Bytes) :
    Within (some head) (prefixUpperBound head) key ↔ head <+: key := by
  induction head generalizing key with
  | nil => simp [Within, prefixUpperBound_nil, ← not_lt]
  | cons byte rest ih =>
    cases key with
    | nil => simp [Within]
    | cons first key =>
      rw [List.cons_prefix_cons, ← ih, prefixUpperBound_cons]
      simp only [Within, Option.mem_some_iff, forall_eq', cons_le_cons_bytes]
      cases prefixUpperBound rest with
      | some upper =>
        simp only [Option.mem_some_iff, forall_eq', List.cons_lt_cons_iff]
        grind
      | none =>
        by_cases last : byte = 255
        · have greatest : ¬ byte < first := by
            rw [last]
            exact not_lt.2 (Fin.le_last first)
          simp [last ▸ greatest, last]
        · simp only [last, if_false, Option.mem_some_iff, forall_eq', List.cons_lt_cons_iff,
            lt_succ_byte last, List.not_lt_nil, and_false, or_false, Option.not_mem_none]
          constructor
          · rintro ⟨less | ⟨equal, le⟩, notGreater⟩
            · exact absurd less (not_lt.2 notGreater)
            · exact ⟨equal, le, fun _ absent => absent.elim⟩
          · rintro ⟨equal, le, -⟩
            exact ⟨.inr ⟨equal, le⟩, equal.ge⟩

/-! ## Cursors of a range -/

/-- What `makeOrderedCursor` makes. -/
theorem makeOrderedCursor_eq_ok {L : Limits} {liveCursors : Nat} {root : MutableRoot}
    {range : OrderedRange} {cursor : OrderedCursor}
    (made : makeOrderedCursor L liveCursors root range = .ok cursor) :
    cursor.root = root ∧ cursor.positioned = false ∧
      ∀ key, Within cursor.lower cursor.upper key ↔ range.Contains key := by
  obtain ⟨-, made⟩ := require_bind_eq_ok.1 made
  cases range with
  | all =>
    obtain rfl := Except.ok.inj made
    exact ⟨rfl, rfl, fun key => by simp [Within, OrderedRange.Contains]⟩
  | halfOpen lower upper =>
    obtain ⟨-, made⟩ := require_bind_eq_ok.1 made
    obtain rfl := Except.ok.inj made
    exact ⟨rfl, rfl, fun key => Iff.rfl⟩
  | startsWith head =>
    obtain ⟨-, made⟩ := require_bind_eq_ok.1 made
    obtain rfl := Except.ok.inj made
    exact ⟨rfl, rfl, within_prefixUpperBound head⟩

/-- Every sequence of calls on a cursor of a well-formed tree answers as a position in the sorted list
of the entries of its range, and the bounds of the cursor are those of the range: for a prefix,
exactly the keys that begin with it. -/
theorem orderedCursor_refines_list {L : Limits} {liveCursors : Nat} {root : MutableRoot}
    {range : OrderedRange} {cursor : OrderedCursor} (shaped : root.tree.Shaped)
    (made : makeOrderedCursor L liveCursors root range = .ok cursor) :
    (∀ calls, cursor.run L calls = ListCursor.run L
        { entries := root.tree.pairs.filter fun entry => decide (range.Contains entry.1) } calls) ∧
      ∀ key, Within cursor.lower cursor.upper key ↔ range.Contains key := by
  obtain ⟨rfl, isNew, contains⟩ := makeOrderedCursor_eq_ok made
  refine ⟨fun calls => ?_, contains⟩
  rw [(OrderedCursor.refines_new shaped isNew).run_eq calls,
    OrderedCursor.entries_eq_filter shaped]
  simp only [contains]

/-- A tree with two leaves. -/
def twoLeaves : MutableRoot :=
  let low : MutableNode MutableTreeValue :=
    { minimumKey := [1], items := [{ key := [1], value := [10] }, { key := [255], value := [11] }] }
  let high : MutableNode MutableTreeValue :=
    { minimumKey := [255, 255], items := [{ key := [255, 255], value := [12] }] }
  let inner : MutableNode (MutableTree 0) := { minimumKey := [1], items := [low, high] }
  ⟨1, inner⟩

theorem twoLeaves_shaped : twoLeaves.tree.Shaped := by
  refine ⟨fun child member => ?_, ?_, fun _ => rfl⟩
  · rcases List.mem_cons.1 member with rfl | member
    · exact ⟨⟨by decide, fun _ => rfl⟩, by decide⟩
    · obtain rfl := List.mem_singleton.1 member
      exact ⟨⟨by decide, fun _ => rfl⟩, by decide⟩
  · decide

/-- A prefix of bytes 0xff only, whose keys are in two leaves. -/
theorem orderedCursor_refines_list_twoLeaves :
    ∃ cursor, makeOrderedCursor Limits.default 0 twoLeaves (.startsWith [255]) = .ok cursor ∧
      cursor.run Limits.default [.last, .previous, .previous, .first] =
        [(.ok true, some ([255, 255], [12])), (.ok true, some ([255], [11])), (.ok false, none),
          (.ok true, some ([255], [11]))] := by
  have made : makeOrderedCursor Limits.default 0 twoLeaves (.startsWith [255]) = .ok _ := rfl
  refine ⟨_, made, ?_⟩
  rw [(orderedCursor_refines_list twoLeaves_shaped made).1]
  decide

end Miare
