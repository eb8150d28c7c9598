import Mathlib.Data.List.Sort
import Mathlib.Data.List.Perm.Basic
import Mathlib.Order.Basic
import Mathlib.Tactic

/-!
# Lists ordered by a key

Finite maps as lists of entries with strictly increasing keys.  The operations work on plain
lists, for vectors that the program keeps sorted itself; `Keyed` packs a list with its order.
-/

namespace Miare.Misc

section Lists

variable {ε κ : Type*} [LinearOrder κ] (key : ε → κ)

/-- Keys strictly increase. -/
def Increasing (entries : List ε) : Prop :=
  entries.Pairwise fun a b => key a < key b

instance (entries : List ε) : Decidable (Increasing key entries) :=
  inferInstanceAs (Decidable (List.Pairwise _ _))

/-- The entry with key `k`. -/
def findKey (k : κ) (entries : List ε) : Option ε :=
  entries.find? fun e => key e = k

/-- Insert an entry at its place, or replace the one that has its key. -/
def putEntry (entry : ε) : List ε → List ε
  | [] => [entry]
  | head :: rest =>
    if key entry < key head then entry :: head :: rest
    else if key entry = key head then entry :: rest
    else head :: putEntry entry rest

/-- Drop the entry with key `k`. -/
def removeKey (k : κ) (entries : List ε) : List ε :=
  entries.filter fun e => key e ≠ k

variable {key}

theorem increasing_cons {entry : ε} {entries : List ε} :
    Increasing key (entry :: entries) ↔
      (∀ e ∈ entries, key entry < key e) ∧ Increasing key entries :=
  List.pairwise_cons

theorem increasing_append {left right : List ε} :
    Increasing key (left ++ right) ↔
      Increasing key left ∧ Increasing key right ∧
        ∀ a ∈ left, ∀ b ∈ right, key a < key b :=
  List.pairwise_append

omit [LinearOrder κ] in
/-- In a transitive order it is enough to compare a further entry with the last one. -/
theorem pairwise_concat {r : ε → ε → Prop} (trans : ∀ {a b c}, r a b → r b c → r a c)
    {entries : List ε} {entry : ε} :
    (entries ++ [entry]).Pairwise r ↔
      entries.Pairwise r ∧ ∀ last ∈ entries.getLast?, r last entry := by
  rw [List.pairwise_append]
  constructor
  · rintro ⟨ordered, -, above⟩
    refine ⟨ordered, fun last isLast => ?_⟩
    exact above last (List.mem_of_mem_getLast? isLast) entry List.mem_cons_self
  · rintro ⟨ordered, above⟩
    refine ⟨ordered, List.pairwise_singleton _ _, fun other member b single => ?_⟩
    obtain rfl := List.mem_singleton.1 single
    have nonempty := List.ne_nil_of_mem member
    have last := above _ (List.getLast?_eq_some_getLast nonempty)
    rw [← List.dropLast_append_getLast nonempty] at member ordered
    rcases List.mem_append.1 member with early | late
    · exact trans ((List.pairwise_append.1 ordered).2.2 other early _ List.mem_cons_self) last
    · rw [List.mem_singleton.1 late]
      exact last

/-- A key below every key of the list. -/
theorem removeKey_of_lt {k : κ} {entries : List ε} (below : ∀ e ∈ entries, k < key e) :
    removeKey key k entries = entries := by
  apply List.filter_eq_self.2
  intro e member
  simpa using (below e member).ne'

theorem mem_removeKey {k : κ} {entries : List ε} {e : ε} :
    e ∈ removeKey key k entries ↔ e ∈ entries ∧ key e ≠ k := by
  simp [removeKey]

theorem removeKey_increasing {entries : List ε} (k : κ) (increasing : Increasing key entries) :
    Increasing key (removeKey key k entries) :=
  increasing.filter _

theorem putEntry_perm {entries : List ε} (entry : ε) (increasing : Increasing key entries) :
    (putEntry key entry entries).Perm (entry :: removeKey key (key entry) entries) := by
  induction entries with
  | nil => simp [putEntry, removeKey]
  | cons head rest ih =>
    obtain ⟨above, tail⟩ := increasing_cons.1 increasing
    simp only [putEntry]
    split
    · rename_i before
      rw [removeKey_of_lt]
      intro e member
      rcases List.mem_cons.1 member with rfl | member
      · exact before
      · exact before.trans (above e member)
    · split
      · rename_i _ same
        have dropped : removeKey key (key entry) (head :: rest) = rest := by
          have : removeKey key (key entry) rest = rest :=
            removeKey_of_lt fun e member => same ▸ above e member
          rw [removeKey, List.filter_cons_of_neg (by simp [same]), ← removeKey, this]
        rw [dropped]
      · rename_i _ differs
        have kept : removeKey key (key entry) (head :: rest) =
            head :: removeKey key (key entry) rest := by
          rw [removeKey, List.filter_cons_of_pos (by simpa using Ne.symm differs), ← removeKey]
        rw [kept]
        exact ((ih tail).cons head).trans (List.Perm.swap _ _ _)

/-- An entry behind all others. -/
theorem putEntry_of_gt {entries : List ε} {entry : ε} (above : ∀ e ∈ entries, key e < key entry) :
    putEntry key entry entries = entries ++ [entry] := by
  induction entries with
  | nil => rfl
  | cons head rest ih =>
    have less := above head List.mem_cons_self
    rw [putEntry, if_neg less.not_gt, if_neg less.ne',
      ih fun e member => above e (List.mem_cons_of_mem _ member)]
    rfl

theorem mem_putEntry {entries : List ε} {entry e : ε} (increasing : Increasing key entries) :
    e ∈ putEntry key entry entries ↔ e = entry ∨ e ∈ entries ∧ key e ≠ key entry := by
  rw [(putEntry_perm entry increasing).mem_iff, List.mem_cons, mem_removeKey]

theorem putEntry_increasing {entries : List ε} (entry : ε)
    (increasing : Increasing key entries) : Increasing key (putEntry key entry entries) := by
  induction entries with
  | nil => exact List.pairwise_singleton _ _
  | cons head rest ih =>
    obtain ⟨above, tail⟩ := increasing_cons.1 increasing
    simp only [putEntry]
    split
    · rename_i before
      refine increasing_cons.2 ⟨?_, increasing⟩
      intro e member
      rcases List.mem_cons.1 member with rfl | member
      · exact before
      · exact before.trans (above e member)
    · split
      · rename_i _ same
        exact increasing_cons.2 ⟨fun e member => same ▸ above e member, tail⟩
      · rename_i notBefore differs
        refine increasing_cons.2 ⟨?_, ih tail⟩
        intro e member
        rcases (mem_putEntry tail).1 member with rfl | ⟨member, -⟩
        · exact lt_of_le_of_ne (not_lt.1 notBefore) (Ne.symm differs)
        · exact above e member

/-- Equal keys mean equal entries. -/
theorem Increasing.eq_of_key {entries : List ε} (increasing : Increasing key entries) {a b : ε}
    (left : a ∈ entries) (right : b ∈ entries) (same : key a = key b) : a = b := by
  induction entries with
  | nil => simp at left
  | cons head rest ih =>
    obtain ⟨above, tail⟩ := increasing_cons.1 increasing
    rcases List.mem_cons.1 left with rfl | left'
    · rcases List.mem_cons.1 right with rfl | right'
      · rfl
      · exact absurd same (above b right').ne
    · rcases List.mem_cons.1 right with rfl | right'
      · exact absurd same (above a left').ne'
      · exact ih tail left' right'

/-- Entries in order are determined by which they are. -/
theorem Increasing.eq_of_perm {left right : List ε} (increasing : Increasing key left)
    (other : Increasing key right) (same : left.Perm right) : left = right :=
  same.eq_of_pairwise (fun _ _ _ _ less greater => absurd less greater.not_gt) increasing other

theorem findKey_eq_some_iff {entries : List ε} (increasing : Increasing key entries) {k : κ}
    {e : ε} : findKey key k entries = some e ↔ e ∈ entries ∧ key e = k := by
  constructor
  · intro found
    exact ⟨List.mem_of_find?_eq_some found, by simpa using List.find?_some found⟩
  · rintro ⟨member, same⟩
    cases found : findKey key k entries with
    | none =>
      have := List.find?_eq_none.1 found e member
      simp [same] at this
    | some other =>
      have otherKey : key other = k := by simpa using List.find?_some found
      rw [increasing.eq_of_key (List.mem_of_find?_eq_some found) member
        (otherKey.trans same.symm)]

theorem findKey_eq_none_iff {entries : List ε} {k : κ} :
    findKey key k entries = none ↔ ∀ e ∈ entries, key e ≠ k := by
  simp [findKey]

/-- The entry found, put in front of the others. -/
theorem perm_of_findKey {entries : List ε} (increasing : Increasing key entries) {k : κ} {e : ε}
    (found : findKey key k entries = some e) : entries.Perm (e :: removeKey key k entries) := by
  obtain ⟨member, rfl⟩ := (findKey_eq_some_iff increasing).1 found
  clear found
  induction entries with
  | nil => simp at member
  | cons head rest ih =>
    obtain ⟨above, tail⟩ := increasing_cons.1 increasing
    rcases List.mem_cons.1 member with rfl | later
    · have : removeKey key (key e) (e :: rest) = rest := by
        rw [removeKey, List.filter_cons_of_neg (by simp), ← removeKey]
        exact removeKey_of_lt above
      rw [this]
    · have kept : removeKey key (key e) (head :: rest) =
          head :: removeKey key (key e) rest := by
        rw [removeKey, List.filter_cons_of_pos (by simpa using (above e later).ne), ← removeKey]
      rw [kept]
      exact ((ih tail later).cons head).trans (List.Perm.swap _ _ _)

theorem removeKey_of_findKey_none {entries : List ε} {k : κ}
    (absent : findKey key k entries = none) : removeKey key k entries = entries := by
  apply List.filter_eq_self.2
  intro e member
  simpa using findKey_eq_none_iff.1 absent e member

/-! ## Between other entries, and through a map -/

theorem putEntry_ne_nil (entry : ε) (entries : List ε) : putEntry key entry entries ≠ [] := by
  cases entries with
  | nil => exact List.cons_ne_nil _ _
  | cons head rest =>
    unfold putEntry
    split
    · exact List.cons_ne_nil _ _
    · split <;> exact List.cons_ne_nil _ _

/-- An entry whose place is not behind the front part. -/
theorem putEntry_append_right {front back : List ε} {entry : ε}
    (above : ∀ e ∈ front, key e < key entry) :
    putEntry key entry (front ++ back) = front ++ putEntry key entry back := by
  induction front with
  | nil => rfl
  | cons head rest ih =>
    have less := above head List.mem_cons_self
    rw [List.cons_append, putEntry, if_neg less.not_gt, if_neg less.ne',
      ih fun e member => above e (List.mem_cons_of_mem _ member), List.cons_append]

/-- An entry whose place is before the back part. -/
theorem putEntry_append_left {front back : List ε} {entry : ε}
    (below : ∀ e ∈ back, key entry < key e) :
    putEntry key entry (front ++ back) = putEntry key entry front ++ back := by
  induction front with
  | nil =>
    cases back with
    | nil => rfl
    | cons next rest =>
      exact if_pos (below next List.mem_cons_self)
  | cons head rest ih =>
    rw [List.cons_append, putEntry, putEntry, ih]
    split
    · rfl
    · split <;> rfl

theorem removeKey_append (k : κ) (front back : List ε) :
    removeKey key k (front ++ back) = removeKey key k front ++ removeKey key k back :=
  List.filter_append ..

theorem removeKey_of_ne {k : κ} {entries : List ε} (differ : ∀ e ∈ entries, key e ≠ k) :
    removeKey key k entries = entries :=
  removeKey_of_findKey_none (findKey_eq_none_iff.2 differ)

theorem putEntry_map {δ : Type*} {outer : δ → κ} (f : ε → δ) (same : ∀ e, outer (f e) = key e)
    (entry : ε) (entries : List ε) :
    (putEntry key entry entries).map f = putEntry outer (f entry) (entries.map f) := by
  induction entries with
  | nil => rfl
  | cons head rest ih =>
    rw [putEntry, List.map_cons, putEntry, same, same, ← ih]
    split
    · rfl
    · split <;> rfl

theorem removeKey_map {δ : Type*} {outer : δ → κ} (f : ε → δ) (same : ∀ e, outer (f e) = key e)
    (k : κ) (entries : List ε) :
    (removeKey key k entries).map f = removeKey outer k (entries.map f) := by
  rw [removeKey, removeKey, List.filter_map]
  congr 1
  apply List.filter_congr
  intro e _
  simp [same]

/-! ## Replacing one map by another -/

variable (key) in
/-- Drop keys one after the other. -/
def removeKeys (keys : List κ) (entries : List ε) : List ε :=
  keys.foldl (fun rest k => removeKey key k rest) entries

variable (key) in
/-- Put entries one after the other. -/
def putAll (puts entries : List ε) : List ε :=
  puts.foldl (fun rest entry => putEntry key entry rest) entries

theorem removeKeys_increasing {keys : List κ} {entries : List ε}
    (increasing : Increasing key entries) : Increasing key (removeKeys key keys entries) := by
  induction keys generalizing entries with
  | nil => exact increasing
  | cons k rest ih => exact ih (removeKey_increasing k increasing)

theorem mem_removeKeys {keys : List κ} {entries : List ε} {e : ε} :
    e ∈ removeKeys key keys entries ↔ e ∈ entries ∧ key e ∉ keys := by
  induction keys generalizing entries with
  | nil => simp [removeKeys]
  | cons k rest ih =>
    change e ∈ removeKeys key rest (removeKey key k entries) ↔ _
    rw [ih, mem_removeKey, List.mem_cons, not_or, and_assoc]

theorem putAll_increasing {puts entries : List ε} (increasing : Increasing key entries) :
    Increasing key (putAll key puts entries) := by
  induction puts generalizing entries with
  | nil => exact increasing
  | cons entry rest ih => exact ih (putEntry_increasing entry increasing)

theorem mem_putAll {puts entries : List ε} {e : ε} (distinct : Increasing key puts)
    (increasing : Increasing key entries) :
    e ∈ putAll key puts entries ↔
      e ∈ puts ∨ e ∈ entries ∧ ∀ entry ∈ puts, key e ≠ key entry := by
  induction puts generalizing entries with
  | nil => simp [putAll]
  | cons entry rest ih =>
    obtain ⟨above, distinct⟩ := increasing_cons.1 distinct
    change e ∈ putAll key rest (putEntry key entry entries) ↔ _
    rw [ih distinct (putEntry_increasing entry increasing), mem_putEntry increasing, List.mem_cons,
      List.forall_mem_cons]
    constructor
    · rintro (later | ⟨rfl | ⟨old, differs⟩, others⟩)
      · exact Or.inl (Or.inr later)
      · exact Or.inl (Or.inl rfl)
      · exact Or.inr ⟨old, differs, others⟩
    · rintro ((rfl | later) | ⟨old, differs, others⟩)
      · exact Or.inr ⟨Or.inl rfl, fun other member => (above other member).ne⟩
      · exact Or.inl later
      · exact Or.inr ⟨Or.inr ⟨old, differs⟩, others⟩

/-- Removing the keys that `new` lacks and putting the entries that `old` lacks replaces one map
by the other. -/
theorem putAll_removeKeys {old new puts : List ε} {keys : List κ}
    (increasing : Increasing key old) (increasingNew : Increasing key new)
    (distinct : Increasing key puts) (isPut : ∀ e, e ∈ puts ↔ e ∈ new ∧ e ∉ old)
    (removed : ∀ e ∈ old, key e ∈ keys ↔ ∀ other ∈ new, key other ≠ key e) :
    putAll key puts (removeKeys key keys old) = new := by
  have sorted : Increasing key (putAll key puts (removeKeys key keys old)) :=
    putAll_increasing (removeKeys_increasing increasing)
  refine sorted.eq_of_perm increasingNew ((List.perm_ext_iff_of_nodup ?_ ?_).2 fun e => ?_)
  · exact sorted.imp fun less => by
      rintro rfl
      exact less.false
  · exact increasingNew.imp fun less => by
      rintro rfl
      exact less.false
  rw [mem_putAll distinct (removeKeys_increasing increasing), mem_removeKeys, isPut]
  constructor
  · rintro (⟨isNew, -⟩ | ⟨⟨isOld, kept⟩, untouched⟩)
    · exact isNew
    · rw [removed e isOld] at kept
      push Not at kept
      obtain ⟨other, isNew, same⟩ := kept
      by_cases both : other ∈ old
      · rwa [← increasing.eq_of_key both isOld same]
      · exact absurd same.symm (untouched other ((isPut other).2 ⟨isNew, both⟩))
  · intro isNew
    by_cases isOld : e ∈ old
    · refine Or.inr ⟨⟨isOld, fun gone => (removed e isOld).1 gone e isNew rfl⟩, ?_⟩
      intro entry put same
      obtain ⟨entryNew, notOld⟩ := (isPut entry).1 put
      exact notOld (increasingNew.eq_of_key isNew entryNew same ▸ isOld)
    · exact Or.inl ⟨isNew, isOld⟩

end Lists

/-- A finite map: entries with strictly increasing keys. -/
structure Keyed {ε κ : Type*} [LinearOrder κ] (key : ε → κ) where
  entries : List ε
  increasing : Increasing key entries

namespace Keyed

variable {ε κ : Type*} [LinearOrder κ] {key : ε → κ}

@[ext] theorem ext {m n : Keyed key} (same : m.entries = n.entries) : m = n := by
  cases m; cases n; simp_all

/-- The map without entries. -/
def empty : Keyed key := ⟨[], List.Pairwise.nil⟩

/-- `find`. -/
def find (m : Keyed key) (k : κ) : Option ε := findKey key k m.entries

/-- `insert_or_assign`. -/
def insertOrAssign (m : Keyed key) (entry : ε) : Keyed key :=
  ⟨putEntry key entry m.entries, putEntry_increasing entry m.increasing⟩

/-- `erase`. -/
def erase (m : Keyed key) (k : κ) : Keyed key :=
  ⟨removeKey key k m.entries, removeKey_increasing k m.increasing⟩

theorem find_eq_some_iff {m : Keyed key} {k : κ} {e : ε} :
    m.find k = some e ↔ e ∈ m.entries ∧ key e = k :=
  findKey_eq_some_iff m.increasing

/-- The entry that was put is found under its key. -/
theorem find_insertOrAssign (m : Keyed key) (entry : ε) :
    (m.insertOrAssign entry).find (key entry) = some entry := by
  rw [find_eq_some_iff]
  exact ⟨(mem_putEntry m.increasing).2 (Or.inl rfl), rfl⟩

/-- Under the other keys nothing changes. -/
theorem find_insertOrAssign_ne (m : Keyed key) {entry : ε} {k : κ} (other : k ≠ key entry) :
    (m.insertOrAssign entry).find k = m.find k := by
  ext e
  rw [find_eq_some_iff, find_eq_some_iff]
  change e ∈ putEntry key entry m.entries ∧ key e = k ↔ _
  rw [mem_putEntry m.increasing]
  constructor
  · rintro ⟨rfl | ⟨member, -⟩, same⟩
    · exact absurd same.symm other
    · exact ⟨member, same⟩
  · rintro ⟨member, same⟩
    exact ⟨Or.inr ⟨member, by rw [same]; exact other⟩, same⟩

theorem insertOrAssign_perm (m : Keyed key) (entry : ε) :
    (m.insertOrAssign entry).entries.Perm (entry :: (m.erase (key entry)).entries) :=
  putEntry_perm entry m.increasing

theorem perm_of_find {m : Keyed key} {k : κ} {e : ε} (found : m.find k = some e) :
    m.entries.Perm (e :: (m.erase k).entries) :=
  perm_of_findKey m.increasing found

theorem erase_of_find_none {m : Keyed key} {k : κ} (absent : m.find k = none) :
    m.erase k = m :=
  ext (removeKey_of_findKey_none absent)

end Keyed

end Miare.Misc
