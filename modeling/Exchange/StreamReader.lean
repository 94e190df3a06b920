import Mathlib

/-! Reading items off a stream that arrives in pieces. A reader looks at the
bytes so far and finds an item, a fault, or nothing complete yet. If bytes that
arrive later never change what it has found, then how the stream was cut into
pieces changes neither the items, nor the fault, nor the bytes left over. -/
namespace Exchange

structure Reader (α ε β : Type) where
  /-- The first item with the bytes behind it; no value while it is incomplete. -/
  read : List α → Except ε (Option (β × List α))
  shrinks : ∀ {data item rest}, read data = .ok (some (item, rest)) → rest.length < data.length
  settled : ∀ {data item rest} (more), read data = .ok (some (item, rest)) →
    read (data ++ more) = .ok (some (item, rest ++ more))
  broken : ∀ {data fault} (more), read data = .error fault → read (data ++ more) = .error fault

namespace Reader
variable {α ε β : Type} (reader : Reader α ε β)

/-- Every item in turn, then the fault that ended the reading or the bytes left over. -/
def readAll (data : List α) : List β × Except ε (List α) :=
  match found : reader.read data with
  | .error fault => ([], .error fault)
  | .ok none => ([], .ok data)
  | .ok (some (item, rest)) =>
    have := reader.shrinks found
    let (items, last) := readAll rest
    (item :: items, last)
termination_by data.length

/-- Reading on where an earlier pass ended. After a fault nothing is read. -/
def resume : Except ε (List α) → List α → List β × Except ε (List α)
  | .error fault, _ => ([], .error fault)
  | .ok rest, more => reader.readAll (rest ++ more)

/-- One pass for each piece. -/
def feed : Except ε (List α) → List (List α) → List β × Except ε (List α)
  | last, [] => ([], last)
  | last, piece :: pieces =>
    let (items, last) := reader.resume last piece
    let (later, last) := feed last pieces
    (items ++ later, last)

variable {reader} {data rest : List α} {item : β} {fault : ε}

theorem readAll_waits (found : reader.read data = .ok none) : reader.readAll data = ([], .ok data) := by
  rw [readAll]
  split <;> simp_all

theorem readAll_broken (found : reader.read data = .error fault) : reader.readAll data = ([], .error fault) := by
  rw [readAll]
  split <;> simp_all

theorem readAll_item (found : reader.read data = .ok (some (item, rest))) :
    reader.readAll data = (item :: (reader.readAll rest).1, (reader.readAll rest).2) := by
  rw [readAll]
  split
  · simp_all
  · simp_all
  · rename_i item' rest' found'
    rw [found] at found'
    cases found'
    rfl

/-- Bytes left over hold no complete item. -/
theorem readAll_leaves (data : List α) (last : (reader.readAll data).2 = .ok rest) : reader.read rest = .ok none := by
  induction size : data.length using Nat.strongRecOn generalizing data with
  | ind size ih =>
    subst size
    cases found : reader.read data with
    | error fault =>
      rw [readAll_broken found] at last
      cases last
    | ok result =>
      cases result with
      | none =>
        rw [readAll_waits found] at last
        cases last
        exact found
      | some next =>
        rw [readAll_item found] at last
        exact ih next.2.length (reader.shrinks found) next.2 last rfl

/-- Reading a stream in two parts. -/
theorem readAll_append (data more : List α) : reader.readAll (data ++ more) =
    ((reader.readAll data).1 ++ (reader.resume (reader.readAll data).2 more).1,
      (reader.resume (reader.readAll data).2 more).2) := by
  induction size : data.length using Nat.strongRecOn generalizing data with
  | ind size ih =>
    subst size
    cases found : reader.read data with
    | error fault =>
      rw [readAll_broken found, readAll_broken (reader.broken more found)]
      rfl
    | ok result =>
      cases result with
      | none =>
        rw [readAll_waits found]
        rfl
      | some next =>
        rw [readAll_item found, readAll_item (reader.settled more found),
          ih next.2.length (reader.shrinks found) next.2 rfl]
        rfl

theorem feed_broken (pieces : List (List α)) : reader.feed (.error fault) pieces = ([], .error fault) := by
  induction pieces with
  | nil => rfl
  | cons piece pieces ih => simp [feed, resume, ih]

/-- Feeding a stream in pieces reads what feeding it whole does. -/
theorem feed_pieces (pieces : List (List α)) (waits : reader.read rest = .ok none) :
    reader.feed (.ok rest) pieces = reader.readAll (rest ++ pieces.flatten) := by
  induction pieces generalizing rest with
  | nil => rw [feed, List.flatten_nil, List.append_nil, readAll_waits waits]
  | cons piece pieces ih =>
    rw [feed, List.flatten_cons, ← List.append_assoc, readAll_append (rest ++ piece)]
    simp only [resume]
    cases last : (reader.readAll (rest ++ piece)).2 with
    | error fault => rw [feed_broken]
    | ok left => simp only [ih (readAll_leaves _ last)]

/-- A pass that reads nothing leaves everything. -/
theorem readAll_nothing (data : List α) (items : (reader.readAll data).1 = [])
    (last : (reader.readAll data).2 = .ok rest) : rest = data := by
  cases found : reader.read data with
  | error fault =>
    rw [readAll_broken found] at last
    cases last
  | ok result =>
    cases result with
    | none =>
      rw [readAll_waits found] at last
      cases last
      rfl
    | some next =>
      rw [readAll_item found] at items
      cases items

end Reader
end Exchange
