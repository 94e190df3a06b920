import Mathlib

/-! A finite map kept as its entries in strictly increasing key order, the
observable content of a balanced search tree. Order is a field, so a map
whose smallest or largest key is not at an end cannot be built. Every update
is described by how it splits the entry list. -/
namespace Exchange

/-- A map over a linear order, listed by key. -/
@[ext] structure OrderedMap (K V : Type) [LinearOrder K] where
  entries : List (K × V)
  sorted : entries.Pairwise (fun left right => left.1 < right.1)

namespace OrderedMap
variable {K V : Type} [LinearOrder K]

/-- The value at a key, in entries of any order. -/
def findEntry (key : K) : List (K × V) → Option V
  | [] => none
  | (other, value) :: rest => if key = other then some value else findEntry key rest

/-- Ordered insertion; an existing key gets the new value in place. -/
def insertEntry (key : K) (value : V) : List (K × V) → List (K × V)
  | [] => [(key, value)]
  | (other, previous) :: rest =>
    if key < other then (key, value) :: (other, previous) :: rest
    else if key = other then (key, value) :: rest
    else (other, previous) :: insertEntry key value rest

private theorem mem_insertEntry {key : K} {value : V} {entry : K × V} :
    ∀ {entries : List (K × V)}, entry ∈ insertEntry key value entries →
      entry = (key, value) ∨ entry ∈ entries
  | [], member => Or.inl (List.mem_singleton.mp member)
  | (other, previous) :: rest, member => by
    simp only [insertEntry] at member
    split at member
    · exact List.mem_cons.mp member
    · split at member
      · rcases List.mem_cons.mp member with same | later
        · exact Or.inl same
        · exact Or.inr (List.mem_cons_of_mem _ later)
      · rcases List.mem_cons.mp member with same | later
        · exact Or.inr (by simp [same])
        · exact (mem_insertEntry later).imp_right (List.mem_cons_of_mem _)

private theorem insertEntry_sorted (key : K) (value : V) {entries : List (K × V)}
    (sorted : entries.Pairwise (fun left right => left.1 < right.1)) :
    (insertEntry key value entries).Pairwise (fun left right => left.1 < right.1) := by
  induction entries with
  | nil => simp [insertEntry]
  | cons head rest ih =>
    obtain ⟨other, previous⟩ := head
    obtain ⟨above, restSorted⟩ := List.pairwise_cons.mp sorted
    simp only [insertEntry]
    split
    · rename_i below
      refine List.pairwise_cons.mpr ⟨?_, sorted⟩
      intro entry member
      rcases List.mem_cons.mp member with rfl | later
      · exact below
      · exact below.trans (above entry later)
    · rename_i notBelow
      split
      · rename_i same
        subst same
        exact List.pairwise_cons.mpr ⟨above, restSorted⟩
      · rename_i different
        refine List.pairwise_cons.mpr ⟨?_, ih restSorted⟩
        intro entry member
        rcases mem_insertEntry member with rfl | later
        · exact lt_of_le_of_ne (not_lt.mp notBelow) (Ne.symm different)
        · exact above entry later

def empty : OrderedMap K V := ⟨[], List.Pairwise.nil⟩

instance : EmptyCollection (OrderedMap K V) := ⟨empty⟩

instance : Inhabited (OrderedMap K V) := ⟨empty⟩

instance [DecidableEq V] : DecidableEq (OrderedMap K V) := fun left right =>
  decidable_of_iff (left.entries = right.entries) OrderedMap.ext_iff.symm

def find (map : OrderedMap K V) (key : K) : Option V := findEntry key map.entries

def insert (map : OrderedMap K V) (key : K) (value : V) : OrderedMap K V :=
  ⟨insertEntry key value map.entries, insertEntry_sorted key value map.sorted⟩

def erase (map : OrderedMap K V) (key : K) : OrderedMap K V :=
  ⟨map.entries.filter (fun entry => entry.1 ≠ key), map.sorted.filter _⟩

@[simp] theorem entries_empty : (∅ : OrderedMap K V).entries = [] := rfl

@[simp] theorem find_empty (key : K) : (∅ : OrderedMap K V).find key = none := rfl

variable {map : OrderedMap K V} {key other : K} {value previous : V}
  {before after : List (K × V)}

private theorem findEntry_none {entries : List (K × V)}
    (absent : ∀ entry ∈ entries, entry.1 ≠ key) : findEntry key entries = none := by
  induction entries with
  | nil => rfl
  | cons head rest ih =>
    have headDiffers : key ≠ head.1 := Ne.symm (absent head (by simp))
    simp only [findEntry, headDiffers, ↓reduceIte]
    exact ih fun entry member => absent entry (List.mem_cons_of_mem _ member)

private theorem findEntry_append_of_absent {entries : List (K × V)}
    (absent : ∀ entry ∈ before, entry.1 ≠ key) :
    findEntry key (before ++ entries) = findEntry key entries := by
  induction before with
  | nil => rfl
  | cons head rest ih =>
    have headDiffers : key ≠ head.1 := Ne.symm (absent head (by simp))
    simp only [List.cons_append, findEntry, headDiffers, ↓reduceIte]
    exact ih fun entry member => absent entry (List.mem_cons_of_mem _ member)

/-- In a sorted split, everything before the middle key is below it and
everything after is above it. -/
theorem split_bounds (split : map.entries = before ++ (key, value) :: after) :
    (∀ entry ∈ before, entry.1 < key) ∧ (∀ entry ∈ after, key < entry.1) := by
  have sorted := map.sorted
  rw [split] at sorted
  obtain ⟨-, middle, crossing⟩ := List.pairwise_append.mp sorted
  refine ⟨fun entry member => crossing entry member (key, value) (by simp), ?_⟩
  exact (List.pairwise_cons.mp middle).1

theorem find_of_split (split : map.entries = before ++ (key, value) :: after) :
    map.find key = some value := by
  rw [find, split, findEntry_append_of_absent fun entry member =>
    ne_of_lt ((split_bounds split).1 entry member)]
  simp [findEntry]

/-- A stored key sits at one place of the entry list. -/
theorem split_of_find (found : map.find key = some value) :
    ∃ before after, map.entries = before ++ (key, value) :: after := by
  unfold find at found
  suffices member : (key, value) ∈ map.entries from List.append_of_mem member
  generalize map.entries = entries at found
  induction entries with
  | nil => cases found
  | cons head rest ih =>
    simp only [findEntry] at found
    split at found
    · rename_i same
      cases found
      simp [same]
    · exact List.mem_cons_of_mem _ (ih found)

theorem find_eq_some_iff : map.find key = some value ↔ (key, value) ∈ map.entries := by
  constructor
  · intro found
    obtain ⟨before, after, split⟩ := split_of_find found
    simp [split]
  · intro member
    obtain ⟨before, after, split⟩ := List.append_of_mem member
    exact find_of_split split

theorem find_eq_none_iff : map.find key = none ↔ ∀ entry ∈ map.entries, entry.1 ≠ key := by
  constructor
  · rintro missing ⟨other, value⟩ member rfl
    rw [find_eq_some_iff.mpr member] at missing
    cases missing
  · exact findEntry_none

private theorem insertEntry_append (below : ∀ entry ∈ before, entry.1 < key)
    (entries : List (K × V)) :
    insertEntry key value (before ++ entries) = before ++ insertEntry key value entries := by
  induction before with
  | nil => rfl
  | cons head rest ih =>
    have headBelow := below head (by simp)
    simp only [List.cons_append, insertEntry, not_lt.mpr headBelow.le, headBelow.ne',
      ↓reduceIte, List.cons.injEq, true_and]
    exact ih fun entry member => below entry (List.mem_cons_of_mem _ member)

theorem mem_insert {entry : K × V} (member : entry ∈ (map.insert key value).entries) :
    entry = (key, value) ∨ entry ∈ map.entries :=
  mem_insertEntry member

/-- Overwriting a stored key leaves every other entry where it was. -/
theorem entries_insert_of_split (split : map.entries = before ++ (key, previous) :: after) (value : V) :
    (map.insert key value).entries = before ++ (key, value) :: after := by
  change insertEntry key value map.entries = _
  rw [split, insertEntry_append (split_bounds split).1]
  simp [insertEntry]

/-- A new key is placed between the smaller and the larger keys. -/
theorem entries_insert_of_absent (missing : map.find key = none) (value : V) :
    ∃ before after, map.entries = before ++ after ∧
      (map.insert key value).entries = before ++ (key, value) :: after ∧
      (∀ entry ∈ before, entry.1 < key) ∧ (∀ entry ∈ after, key < entry.1) := by
  suffices shape : ∀ entries : List (K × V),
      entries.Pairwise (fun left right => left.1 < right.1) → (∀ entry ∈ entries, entry.1 ≠ key) →
      ∃ before after, entries = before ++ after ∧
        insertEntry key value entries = before ++ (key, value) :: after ∧
        (∀ entry ∈ before, entry.1 < key) ∧ (∀ entry ∈ after, key < entry.1) from
    shape map.entries map.sorted (find_eq_none_iff.mp missing)
  intro entries sorted absent
  induction entries with
  | nil => exact ⟨[], [], rfl, rfl, by simp, by simp⟩
  | cons head rest ih =>
    obtain ⟨above, restSorted⟩ := List.pairwise_cons.mp sorted
    have headDiffers := absent head (by simp)
    by_cases below : key < head.1
    · refine ⟨[], head :: rest, rfl, by simp [insertEntry, below], by simp, ?_⟩
      intro entry member
      rcases List.mem_cons.mp member with rfl | later
      · exact below
      · exact below.trans (above entry later)
    · obtain ⟨before, after, shape, inserted, low, high⟩ :=
        ih restSorted fun entry member => absent entry (List.mem_cons_of_mem _ member)
      refine ⟨head :: before, after, by simp [shape], ?_, ?_, high⟩
      · simp [insertEntry, below, Ne.symm headDiffers, inserted]
      · intro entry member
        rcases List.mem_cons.mp member with rfl | earlier
        · exact lt_of_le_of_ne (not_lt.mp below) headDiffers
        · exact low entry earlier

/-- Erasing a stored key closes the gap and moves nothing else. -/
theorem entries_erase_of_split (split : map.entries = before ++ (key, value) :: after) :
    (map.erase key).entries = before ++ after := by
  obtain ⟨low, high⟩ := split_bounds split
  have keepBefore : before.filter (fun entry => entry.1 ≠ key) = before :=
    List.filter_eq_self.mpr fun entry member => by simpa using (low entry member).ne
  have keepAfter : after.filter (fun entry => entry.1 ≠ key) = after :=
    List.filter_eq_self.mpr fun entry member => by simpa using (high entry member).ne'
  simp only [erase, split, List.filter_append, List.filter_cons, keepBefore, keepAfter]
  simp

end OrderedMap
end Exchange
