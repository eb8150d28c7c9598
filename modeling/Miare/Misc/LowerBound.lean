import Miare.Misc.Keyed

/-!
# Lower bounds in increasing lists

The position of the first entry whose key is not less than a bound, and the entries between two
bounds as a segment of the list.
-/

namespace Miare.Misc

variable {ε κ : Type*} [LinearOrder κ] (key : ε → κ)

/-- Position of the first entry whose key is at least `bound`; the length when there is none. -/
def lowerIndex (bound : κ) (entries : List ε) : Nat :=
  entries.findIdx fun entry => decide (bound ≤ key entry)

variable {key} {entries : List ε} {bound : κ}

theorem lowerIndex_le_length : lowerIndex key bound entries ≤ entries.length :=
  List.findIdx_le_length

theorem lowerIndex_map {ι : Type*} (f : ι → ε) (items : List ι) :
    lowerIndex key bound (items.map f) = lowerIndex (key ∘ f) bound items := by
  rw [lowerIndex, List.findIdx_map]
  rfl

theorem lowerIndex_append {low high : List ε} (less : ∀ entry ∈ low, key entry < bound)
    (notLess : ∀ entry ∈ high, bound ≤ key entry) :
    lowerIndex key bound (low ++ high) = low.length := by
  induction low with
  | nil =>
    cases high with
    | nil => rfl
    | cons first rest =>
      have := notLess first List.mem_cons_self
      simp [lowerIndex, List.findIdx_cons, this]
  | cons first rest ih =>
    have small := not_le.2 (less first List.mem_cons_self)
    have below := ih fun entry member => less entry (List.mem_cons_of_mem _ member)
    unfold lowerIndex at below ⊢
    rw [List.cons_append, List.findIdx_cons, below]
    simp [small]

/-- A bound cuts an increasing list in two. -/
theorem Increasing.split_at (increasing : Increasing key entries) (bound : κ) :
    ∃ low high, entries = low ++ high ∧ (∀ entry ∈ low, key entry < bound) ∧
      (∀ entry ∈ high, bound ≤ key entry) ∧ lowerIndex key bound entries = low.length := by
  suffices ∃ low high, entries = low ++ high ∧ (∀ entry ∈ low, key entry < bound) ∧
      ∀ entry ∈ high, bound ≤ key entry by
    obtain ⟨low, high, rfl, less, notLess⟩ := this
    exact ⟨low, high, rfl, less, notLess, lowerIndex_append less notLess⟩
  induction entries with
  | nil => exact ⟨[], [], rfl, by simp, by simp⟩
  | cons first rest ih =>
    obtain ⟨least, later⟩ := increasing_cons.1 increasing
    by_cases small : key first < bound
    · obtain ⟨low, high, rfl, less, notLess⟩ := ih later
      refine ⟨first :: low, high, rfl, ?_, notLess⟩
      intro entry member
      rcases List.mem_cons.1 member with rfl | inLow
      · exact small
      · exact less entry inLow
    · refine ⟨[], first :: rest, rfl, by simp, ?_⟩
      intro entry member
      rcases List.mem_cons.1 member with rfl | inRest
      · exact not_lt.1 small
      · exact (not_lt.1 small).trans (least entry inRest).le

/-- The entries before the position are the smaller ones. -/
theorem Increasing.lt_lowerIndex_iff (increasing : Increasing key entries) {position : Nat}
    {entry : ε} (stands : entries[position]? = some entry) :
    position < lowerIndex key bound entries ↔ key entry < bound := by
  obtain ⟨low, high, rfl, less, notLess, isLength⟩ := increasing.split_at bound
  rw [isLength]
  constructor
  · intro before
    rw [List.getElem?_append_left before] at stands
    exact less entry (List.mem_of_getElem? stands)
  · intro small
    by_contra behind
    rw [List.getElem?_append_right (not_lt.1 behind)] at stands
    exact absurd small (not_lt.2 (notLess entry (List.mem_of_getElem? stands)))

theorem lowerIndex_mono {other : κ} (le : bound ≤ other) :
    lowerIndex key bound entries ≤ lowerIndex key other entries :=
  List.findIdx_le_findIdx fun _ _ above => decide_eq_true (le.trans (of_decide_eq_true above))

theorem lowerIndex_max (bound other : κ) :
    lowerIndex key (max bound other) entries =
      max (lowerIndex key bound entries) (lowerIndex key other entries) := by
  rcases le_total bound other with le | le
  · rw [max_eq_right le, max_eq_right (lowerIndex_mono le)]
  · rw [max_eq_left le, max_eq_left (lowerIndex_mono le)]

theorem Increasing.lowerIndex_drop (increasing : Increasing key entries) (count : Nat) :
    lowerIndex key bound (entries.drop count) = lowerIndex key bound entries - count := by
  obtain ⟨low, high, rfl, less, notLess, isLength⟩ := increasing.split_at bound
  rw [isLength, List.drop_append, lowerIndex_append, List.length_drop]
  · exact fun entry member => less entry (List.mem_of_mem_drop member)
  · exact fun entry member => notLess entry (List.mem_of_mem_drop member)

theorem Increasing.lowerIndex_take (increasing : Increasing key entries) (count : Nat) :
    lowerIndex key bound (entries.take count) = min count (lowerIndex key bound entries) := by
  obtain ⟨low, high, rfl, less, notLess, isLength⟩ := increasing.split_at bound
  rw [isLength, List.take_append, lowerIndex_append, List.length_take]
  · exact fun entry member => less entry (List.mem_of_mem_take member)
  · exact fun entry member => notLess entry (List.mem_of_mem_take member)

/-! ## Segments -/

/-- Where the entries at or behind an optional lower bound begin. -/
def lowerStart (key : ε → κ) (bound : Option κ) (entries : List ε) : Nat :=
  (bound.map fun bound => lowerIndex key bound entries).getD 0

/-- Where the entries before an optional upper bound end. -/
def upperStop (key : ε → κ) (bound : Option κ) (entries : List ε) : Nat :=
  (bound.map fun bound => lowerIndex key bound entries).getD entries.length

theorem upperStop_le_length (bound : Option κ) : upperStop key bound entries ≤ entries.length := by
  cases bound with
  | none => exact le_rfl
  | some bound => exact lowerIndex_le_length

/-- Both bounds hold. -/
def Within (lower upper : Option κ) (value : κ) : Prop :=
  (∀ bound ∈ lower, bound ≤ value) ∧ ∀ bound ∈ upper, value < bound

instance (lower upper : Option κ) (value : κ) : Decidable (Within lower upper value) := by
  unfold Within
  infer_instance

theorem Increasing.filter_lower (increasing : Increasing key entries) (lower : Option κ) :
    entries.filter (fun entry => decide (∀ bound ∈ lower, bound ≤ key entry)) =
      entries.drop (lowerStart key lower entries) := by
  cases lower with
  | none => simp [lowerStart]
  | some bound =>
    obtain ⟨low, high, rfl, less, notLess, isLength⟩ := increasing.split_at bound
    have none_ : low.filter (fun entry => decide (bound ≤ key entry)) = [] :=
      List.filter_eq_nil_iff.2 fun entry member => by simp [less entry member]
    have all_ : high.filter (fun entry => decide (bound ≤ key entry)) = high :=
      List.filter_eq_self.2 fun entry member => by simp [notLess entry member]
    simp [lowerStart, isLength, none_, all_]

theorem Increasing.filter_upper (increasing : Increasing key entries) (upper : Option κ) :
    entries.filter (fun entry => decide (∀ bound ∈ upper, key entry < bound)) =
      entries.take (upperStop key upper entries) := by
  cases upper with
  | none => simp [upperStop]
  | some bound =>
    obtain ⟨low, high, rfl, less, notLess, isLength⟩ := increasing.split_at bound
    have all_ : low.filter (fun entry => decide (key entry < bound)) = low :=
      List.filter_eq_self.2 fun entry member => by simp [less entry member]
    have none_ : high.filter (fun entry => decide (key entry < bound)) = [] :=
      List.filter_eq_nil_iff.2 fun entry member => by simp [notLess entry member]
    simp [upperStop, isLength, none_, all_]

/-- The entries within two bounds are a segment. -/
theorem Increasing.filter_within (increasing : Increasing key entries) (lower upper : Option κ) :
    entries.filter (fun entry => decide (Within lower upper (key entry))) =
      (entries.drop (lowerStart key lower entries)).take
        (upperStop key upper entries - lowerStart key lower entries) := by
  have later : Increasing key (entries.drop (lowerStart key lower entries)) :=
    List.Pairwise.sublist (List.drop_sublist _ _) increasing
  have stop : upperStop key upper (entries.drop (lowerStart key lower entries)) =
      upperStop key upper entries - lowerStart key lower entries := by
    cases upper with
    | none => simp [upperStop]
    | some bound => exact increasing.lowerIndex_drop _
  rw [← stop, ← later.filter_upper upper, ← increasing.filter_lower lower, List.filter_filter]
  congr 1
  funext entry
  rw [Bool.eq_iff_iff]
  simp only [decide_eq_true_eq, Bool.and_eq_true, and_comm]
  exact Iff.rfl

end Miare.Misc
