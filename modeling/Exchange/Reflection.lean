import Exchange.OrderedMap

/-! Maps under a change of keys and values. An ordered map can be read
backwards through any order-reversing change of its keys, and updates do not
care in which direction it is read. -/
namespace Exchange

namespace OrderedMap
variable {K L V W : Type} [LinearOrder K] [LinearOrder L] {keys : K → L} {values : V → W}
  {map : OrderedMap K V} {key : K} {value : V} {before after : List (K × V)}

/-- Where a new key goes is settled by what is below and above it. -/
theorem entries_insert (split : map.entries = before ++ after) (low : ∀ entry ∈ before, entry.1 < key)
    (high : ∀ entry ∈ after, key < entry.1) (value : V) :
    (map.insert key value).entries = before ++ (key, value) :: after := by
  have missing : map.find key = none := by
    refine find_eq_none_iff.mpr fun entry member => ?_
    rw [split] at member
    rcases List.mem_append.mp member with below | above
    · exact (low entry below).ne
    · exact (high entry above).ne'
  obtain ⟨front, back, shape, inserted, below, above⟩ := entries_insert_of_absent missing value
  have nothing {more : List (K × V)} (less : ∀ entry ∈ more, entry.1 < key)
      (greater : ∀ entry ∈ more, key < entry.1) :
      more = [] :=
    List.eq_nil_iff_forall_not_mem.mpr fun entry member => lt_asymm (less entry member) (greater entry member)
  rw [split] at shape
  rcases List.append_eq_append_iff.mp shape with ⟨more, rfl, rfl⟩ | ⟨more, rfl, rfl⟩
  · obtain rfl := nothing (fun entry member => below entry (List.mem_append_right _ member))
      fun entry member => high entry (List.mem_append_left _ member)
    rw [inserted, List.append_nil, List.nil_append]
  · obtain rfl := nothing (fun entry member => low entry (List.mem_append_right _ member))
      fun entry member => above entry (List.mem_append_left _ member)
    rw [inserted, List.append_nil, List.nil_append]

/-- The map read backwards. -/
def reflect (reversing : StrictAnti keys) (values : V → W) (map : OrderedMap K V) : OrderedMap L W where
  entries := (map.entries.map (Prod.map keys values)).reverse
  sorted := List.pairwise_reverse.mpr <| List.pairwise_map.mpr <| map.sorted.imp fun {_ _} below => reversing below

variable (reversing : StrictAnti keys)

theorem reflect_entries : (map.reflect reversing values).entries =
    (map.entries.map (Prod.map keys values)).reverse := rfl

theorem reflect_find : (map.reflect reversing values).find (keys key) = (map.find key).map values := by
  refine Option.ext fun value => ?_
  rw [Option.map_eq_some_iff, find_eq_some_iff, reflect, List.mem_reverse, List.mem_map]
  constructor
  · rintro ⟨⟨other, previous⟩, member, same⟩
    obtain ⟨place, rfl⟩ := Prod.mk.inj same
    obtain rfl := reversing.injective place
    exact ⟨previous, find_eq_some_iff.mpr member, rfl⟩
  · rintro ⟨previous, found, rfl⟩
    exact ⟨(key, previous), find_eq_some_iff.mp found, rfl⟩

theorem reflect_erase : (map.erase key).reflect reversing values =
    (map.reflect reversing values).erase (keys key) := by
  refine OrderedMap.ext ?_
  simp only [reflect, erase, List.filter_reverse, List.filter_map]
  congr 2
  refine List.filter_congr fun entry _ => ?_
  simp [reversing.injective.eq_iff]

theorem reflect_insert : (map.insert key value).reflect reversing values =
    (map.reflect reversing values).insert (keys key) (values value) := by
  refine OrderedMap.ext ?_
  cases found : map.find key with
  | some previous =>
    obtain ⟨before, after, split⟩ := split_of_find found
    have reflected : (map.reflect reversing values).entries = (after.map (Prod.map keys values)).reverse ++
        (keys key, values previous) :: (before.map (Prod.map keys values)).reverse := by
      simp [reflect, split]
    rw [entries_insert_of_split reflected, reflect_entries, entries_insert_of_split split]
    simp
  | none =>
    obtain ⟨before, after, split, inserted, low, high⟩ := entries_insert_of_absent found value
    have reflected : (map.reflect reversing values).entries = (after.map (Prod.map keys values)).reverse ++
        (before.map (Prod.map keys values)).reverse := by
      simp [reflect, split]
    rw [entries_insert reflected, reflect_entries, inserted]
    · simp
    · intro entry member
      obtain ⟨other, above, rfl⟩ := List.mem_map.mp (List.mem_reverse.mp member)
      exact reversing (high other above)
    · intro entry member
      obtain ⟨other, below, rfl⟩ := List.mem_map.mp (List.mem_reverse.mp member)
      exact reversing (low other below)

end OrderedMap

namespace Table
variable {K V W : Type} (values : V → W) (table : AList fun _ : K => V) (key : K) (value : V)

/-- Other values under the same keys. -/
def mapValues : AList fun _ : K => W where
  entries := table.entries.map fun entry => ⟨entry.1, values entry.2⟩
  nodupKeys := by
    have same : (table.entries.map fun entry => (⟨entry.1, values entry.2⟩ : Sigma fun _ : K => W)).keys =
        table.entries.keys := by
      simp [List.keys, Function.comp_def]
    rw [List.NodupKeys, same]
    exact table.nodupKeys

theorem mapValues_id : mapValues (fun value => value) table = table := AList.ext (List.map_id _)

theorem mapValues_mapValues {U : Type} (others : W → U) :
    mapValues others (mapValues values table) = mapValues (fun value => others (values value)) table := by
  refine AList.ext ?_
  simp only [mapValues, List.map_map, Function.comp_def]

variable [DecidableEq K]

theorem mapValues_lookup : (mapValues values table).lookup key = (table.lookup key).map values :=
  List.dlookup_map₂ (f := fun _ => values) key

theorem mapValues_erase : mapValues values (table.erase key) = (mapValues values table).erase key := by
  refine AList.ext ?_
  simp only [mapValues, AList.erase, List.kerase, List.eraseP_map, Function.comp_def]

theorem mapValues_insert : mapValues values (table.insert key value) =
    (mapValues values table).insert key (values value) := by
  refine AList.ext ?_
  have rest := congrArg AList.entries (mapValues_erase values table key)
  simp only [mapValues, AList.erase] at rest
  simp only [mapValues, AList.insert, List.kinsert, List.map_cons, rest]

end Table
end Exchange
