import Mathlib
import Exchange.Types

/-! The symbol table of `symbol_table.hpp`. What it is for: numbering the symbols
by their first appearance, for good. The id is the position cast to 32 bits, so
ids and names lead to one another as long as there are no more than 2^32
symbols, and no longer. -/
namespace Exchange

structure SymbolTable where
  ids : AList (fun _ : Bytes => UInt32) := ∅
  names : List Bytes := []

namespace SymbolTable

/-- `intern`: a known symbol's id, or the next position for a new one. -/
def intern (table : SymbolTable) (symbol : Bytes) : SymbolTable × UInt32 :=
  match table.ids.lookup symbol with
  | some id => (table, id)
  | none =>
    let id := UInt32.ofNat table.names.length
    ({ names := table.names ++ [symbol], ids := table.ids.insert symbol id }, id)

/-- `lookup`: no value where the source returns `false`. -/
def lookup (table : SymbolTable) (symbol : Bytes) : Option UInt32 := table.ids.lookup symbol

/-- `name`: `names_.at(id)`, which throws beyond the end. -/
def name (table : SymbolTable) (id : UInt32) : Option Bytes := table.names[id.toNat]?

def size (table : SymbolTable) : Nat := table.names.length

/-- Symbols interned one after the other, with the ids returned. -/
def internAll : SymbolTable → List Bytes → SymbolTable × List UInt32
  | table, [] => (table, [])
  | table, symbol :: symbols =>
    ((internAll (table.intern symbol).1 symbols).1,
      (table.intern symbol).2 :: (internAll (table.intern symbol).1 symbols).2)

/-! ## Numbering by first appearance -/

/-- The symbols seen so far and the new ones among these, each where it first appears. -/
def firstSeen : List Bytes → List Bytes → List Bytes
  | seen, [] => seen
  | seen, symbol :: symbols => firstSeen (if symbol ∈ seen then seen else seen ++ [symbol]) symbols

/-- The id of a position. -/
def idIn (seen : List Bytes) (symbol : Bytes) : UInt32 := UInt32.ofNat (seen.idxOf symbol)

variable {table : SymbolTable} {seen symbols : List Bytes} {symbol : Bytes}

theorem firstSeen_front (seen symbols : List Bytes) : seen <+: firstSeen seen symbols := by
  induction symbols generalizing seen with
  | nil => exact List.prefix_refl _
  | cons symbol symbols ih =>
    rw [firstSeen]
    split
    · exact ih seen
    · exact (List.prefix_append _ _).trans (ih _)

theorem mem_firstSeen : symbol ∈ firstSeen seen symbols ↔ symbol ∈ seen ∨ symbol ∈ symbols := by
  induction symbols generalizing seen with
  | nil => simp [firstSeen]
  | cons head symbols ih =>
    rw [firstSeen, ih]
    split
    · rename_i known
      constructor
      · rintro (old | later)
        · exact .inl old
        · exact .inr (List.mem_cons_of_mem _ later)
      · rintro (old | here)
        · exact .inl old
        · rcases List.mem_cons.mp here with rfl | later
          · exact .inl known
          · exact .inr later
    · simp [or_assoc]

/-- A position, once given, stays. -/
theorem idIn_front {more : List Bytes} (front : seen <+: more) (member : symbol ∈ seen) :
    idIn more symbol = idIn seen symbol := by
  obtain ⟨rest, rfl⟩ := front
  rw [idIn, idIn, List.idxOf_append_of_mem member]

/-! ## The table numbers so -/

/-- The table has these names, and every one of them leads to its position. -/
structure Numbers (table : SymbolTable) (seen : List Bytes) : Prop where
  names : table.names = seen
  distinct : seen.Nodup
  ids : ∀ symbol, table.ids.lookup symbol = if symbol ∈ seen then some (idIn seen symbol) else none

theorem intern_numbers (numbers : Numbers table seen) (symbol : Bytes) :
    Numbers (table.intern symbol).1 (if symbol ∈ seen then seen else seen ++ [symbol]) ∧
      (table.intern symbol).2 = idIn (if symbol ∈ seen then seen else seen ++ [symbol]) symbol := by
  have known := numbers.ids symbol
  by_cases member : symbol ∈ seen
  · simp only [member, ↓reduceIte] at known ⊢
    rw [intern, known]
    exact ⟨numbers, rfl⟩
  · simp only [member, ↓reduceIte] at known ⊢
    have place : idIn (seen ++ [symbol]) symbol = UInt32.ofNat table.names.length := by
      rw [idIn, List.idxOf_append_of_notMem member, numbers.names]
      simp
    rw [intern, known]
    refine ⟨⟨by rw [numbers.names], by simpa using numbers.distinct.concat member, fun other => ?_⟩, place.symm⟩
    by_cases same : other = symbol
    · subst same
      simp [place]
    · rw [AList.lookup_insert_ne same, numbers.ids]
      by_cases old : other ∈ seen
      · simp [old, idIn_front (List.prefix_append seen [symbol]) old]
      · simp [old, same]

theorem internAll_numbers (numbers : Numbers table seen) (symbols : List Bytes) :
    Numbers (table.internAll symbols).1 (firstSeen seen symbols) ∧
      (table.internAll symbols).2 = symbols.map (idIn (firstSeen seen symbols)) := by
  induction symbols generalizing table seen with
  | nil => exact ⟨numbers, rfl⟩
  | cons symbol symbols ih =>
    obtain ⟨kept, given⟩ := intern_numbers numbers symbol
    obtain ⟨later, ids⟩ := ih kept
    have here : symbol ∈ (if symbol ∈ seen then seen else seen ++ [symbol]) := by
      split
      · assumption
      · simp
    rw [internAll, firstSeen, List.map_cons, ids, given, idIn_front (firstSeen_front _ symbols) here]
    exact ⟨later, rfl⟩

/-! ## 32 bits -/

theorem idIn_toNat (few : seen.length ≤ 2 ^ 32) (member : symbol ∈ seen) :
    (idIn seen symbol).toNat = seen.idxOf symbol := by
  have below := List.idxOf_lt_length_of_mem member
  rw [idIn, UInt32.toNat_ofNat']
  exact Nat.mod_eq_of_lt (by omega)

/-- Every symbol is the name of its id exactly while there are at most 2^32. -/
theorem names_back_iff (distinct : seen.Nodup) :
    (∀ symbol ∈ seen, seen[(idIn seen symbol).toNat]? = some symbol) ↔ seen.length ≤ 2 ^ 32 := by
  constructor
  · intro back
    by_contra many
    -- The symbol at position 2^32 gets the id of the first one.
    have inside : 2 ^ 32 < seen.length := not_le.mp many
    have first : 0 < seen.length := by omega
    have zero : (idIn seen seen[2 ^ 32]).toNat = 0 := by
      rw [idIn, distinct.idxOf_getElem _ inside]
      rfl
    have named := back seen[2 ^ 32] (List.getElem_mem inside)
    rw [zero, List.getElem?_eq_getElem first, Option.some.injEq] at named
    have same := (distinct.getElem_inj_iff).mp named
    omega
  · intro few symbol member
    rw [idIn_toNat few member, List.getElem?_eq_getElem (List.idxOf_lt_length_of_mem member)]
    exact congrArg some (List.getElem_idxOf _)

/-- For every sequence of symbols: the names are the distinct symbols in the order
of their first appearance; every `intern` has returned the 32-bit position of its
symbol among all of them, so ids never change; `lookup` finds exactly the interned
symbols, under these ids; and `name` leads from the id of every symbol back to it
exactly if no more than 2^32 symbols were interned. -/
theorem interning_numbers_by_first_appearance (symbols : List Bytes) :
    (internAll {} symbols).1.names = firstSeen [] symbols ∧
    (internAll {} symbols).2 = symbols.map (idIn (firstSeen [] symbols)) ∧
    (∀ symbol, (internAll {} symbols).1.lookup symbol =
      if symbol ∈ symbols then some (idIn (firstSeen [] symbols) symbol) else none) ∧
    ((∀ symbol ∈ symbols, ∃ id, (internAll {} symbols).1.lookup symbol = some id ∧
        (internAll {} symbols).1.name id = some symbol) ↔ (internAll {} symbols).1.size ≤ 2 ^ 32) := by
  have new : Numbers {} [] := ⟨rfl, List.nodup_nil, fun _ => rfl⟩
  obtain ⟨numbers, given⟩ := internAll_numbers new symbols
  have known : ∀ symbol, symbol ∈ firstSeen [] symbols ↔ symbol ∈ symbols :=
    fun symbol => by simp [mem_firstSeen]
  have found : ∀ symbol, (internAll {} symbols).1.lookup symbol =
      if symbol ∈ symbols then some (idIn (firstSeen [] symbols) symbol) else none := by
    intro symbol
    rw [lookup, numbers.ids]
    exact if_congr (known symbol) rfl rfl
  refine ⟨numbers.names, given, found, ?_⟩
  rw [size, numbers.names, ← names_back_iff numbers.distinct]
  constructor
  · intro back symbol member
    have interned := (known symbol).mp member
    obtain ⟨id, looked, named⟩ := back symbol interned
    rw [found, if_pos interned, Option.some.injEq] at looked
    rw [looked, ← numbers.names]
    exact named
  · intro back symbol member
    refine ⟨idIn (firstSeen [] symbols) symbol, by rw [found, if_pos member], ?_⟩
    rw [name, numbers.names]
    exact back symbol ((known symbol).mpr member)

end SymbolTable
end Exchange
