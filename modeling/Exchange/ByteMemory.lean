import Exchange.BigEndian

/-! Memory byte by byte: words in it, ranges that lie apart, and lists whose
links lie in the first word of their nodes. -/
namespace Exchange.ByteMemory

/-! ## Words -/

/-- Eight bytes, the lowest first. -/
def storeWord (bytes : Nat → UInt8) (place : Nat) (word : UInt64) : Nat → UInt8 := fun address =>
  if place ≤ address ∧ address < place + 8 then UInt8.ofNat (word.toNat >>> (8 * (address - place)))
  else bytes address

def loadWord (bytes : Nat → UInt8) (place : Nat) : UInt64 :=
  UInt64.ofNat (BigEndian.get ((List.range 8).reverse.map fun k => bytes (place + k)))

variable {bytes after : Nat → UInt8} {place address : Nat} {word head node : UInt64}

theorem storeWord_outside (outside : address < place ∨ place + 8 ≤ address) :
    storeWord bytes place word address = bytes address :=
  if_neg fun inside => by omega

theorem loadWord_congr (same : ∀ k < 8, after (place + k) = bytes (place + k)) :
    loadWord after place = loadWord bytes place := by
  refine congrArg (fun read => UInt64.ofNat (BigEndian.get read)) (List.map_congr_left fun k member => ?_)
  exact same k (List.mem_range.mp (List.mem_reverse.mp member))

theorem loadWord_storeWord : loadWord (storeWord bytes place word) place = word := by
  have stored : ((List.range 8).reverse.map fun k => storeWord bytes place word (place + k)) =
      BigEndian.put 8 word.toNat := by
    refine List.map_congr_left fun k member => ?_
    have within := List.mem_range.mp (List.mem_reverse.mp member)
    rw [storeWord, if_pos ⟨Nat.le_add_right _ _, Nat.add_lt_add_left within _⟩, Nat.add_sub_cancel_left]
  rw [loadWord, stored, BigEndian.get_put_of_lt word.toNat_lt, UInt64.ofNat_toNat]

/-! ## Ranges -/

/-- `size` bytes from `base` on. -/
structure Range where
  base : Nat
  size : Nat
  deriving DecidableEq

namespace Range

def Covers (range : Range) (address : Nat) : Prop := range.base ≤ address ∧ address < range.base + range.size

def Apart (first second : Range) : Prop :=
  first.base + first.size ≤ second.base ∨ second.base + second.size ≤ first.base

/-- Every byte of the one is a byte of the other. -/
def Within (inner outer : Range) : Prop :=
  outer.base ≤ inner.base ∧ inner.base + inner.size ≤ outer.base + outer.size

instance (range : Range) : DecidablePred range.Covers := fun _ => inferInstanceAs (Decidable (_ ∧ _))

instance (first : Range) : DecidablePred first.Apart := fun _ => inferInstanceAs (Decidable (_ ∨ _))

variable {first second inner outer : Range}

theorem Apart.symm (apart : first.Apart second) : second.Apart first := Or.symm apart

theorem Apart.within (apart : outer.Apart second) (within : inner.Within outer) : inner.Apart second := by
  obtain ⟨low, high⟩ := within
  rcases apart with before | behind
  · exact .inl (Nat.le_trans high before)
  · exact .inr (Nat.le_trans behind low)

theorem Within.trans {middle : Range} (low : inner.Within middle) (high : middle.Within outer) : inner.Within outer :=
  ⟨Nat.le_trans high.1 low.1, Nat.le_trans low.2 high.2⟩

theorem Apart.not_covers (apart : first.Apart second) (covers : first.Covers address) : ¬ second.Covers address := by
  intro also
  rcases apart with before | behind
  · exact absurd (Nat.lt_of_lt_of_le covers.2 before) (Nat.not_lt.mpr also.1)
  · exact absurd (Nat.lt_of_lt_of_le also.2 behind) (Nat.not_lt.mpr covers.1)

/-- Two ranges that are not empty and lie apart start at different places. -/
theorem Apart.base_ne (apart : first.Apart second) (some : 0 < first.size) (other : 0 < second.size) :
    first.base ≠ second.base := by
  rcases apart with before | behind <;> omega

theorem apart_of_mem {α : Type} {place : α → Range} {items : List α}
    (apart : items.Pairwise fun one other => (place one).Apart (place other)) {one other : α} (member : one ∈ items)
    (also : other ∈ items) (different : one ≠ other) : (place one).Apart (place other) := by
  have symmetric : Std.Symm fun one other => (place one).Apart (place other) := ⟨fun _ _ => Apart.symm⟩
  exact apart.forall member also different

end Range

/-- A store changes nothing outside of the range it is in. -/
theorem storeWord_apart {range : Range} (apart : Range.Apart ⟨place, 8⟩ range) (covers : range.Covers address) :
    storeWord bytes place word address = bytes address :=
  storeWord_outside <| by
    have outside := Range.Apart.not_covers apart.symm covers
    rw [Range.Covers, not_and_or, Nat.not_le, Nat.not_lt] at outside
    exact outside

/-! ## Linked lists -/

/-- The first word of every node points to the next, and the last one points nowhere. -/
inductive Chain (bytes : Nat → UInt8) : UInt64 → List UInt64 → Prop where
  | nil : Chain bytes 0 []
  | cons {node : UInt64} {nodes : List UInt64} (some : node ≠ 0)
      (rest : Chain bytes (loadWord bytes node.toNat) nodes) : Chain bytes node (node :: nodes)

variable {nodes : List UInt64}

/-- A chain survives whatever leaves its links as they are. -/
theorem Chain.frame (chain : Chain bytes head nodes)
    (same : ∀ node ∈ nodes, ∀ k < 8, after (node.toNat + k) = bytes (node.toNat + k)) :
    Chain after head nodes := by
  induction chain with
  | nil => exact .nil
  | cons some _ ih =>
    refine .cons some ?_
    rw [loadWord_congr (same _ (List.mem_cons_self ..))]
    exact ih fun other member => same other (List.mem_cons_of_mem _ member)

theorem Chain.push (chain : Chain bytes head nodes) (some : node ≠ 0)
    (apart : ∀ other ∈ nodes, Range.Apart ⟨node.toNat, 8⟩ ⟨other.toNat, 8⟩) :
    Chain (storeWord bytes node.toNat head) node (node :: nodes) := by
  refine .cons some ?_
  rw [loadWord_storeWord]
  refine chain.frame fun other member k within => storeWord_apart (apart other member) ?_
  exact ⟨Nat.le_add_right _ _, Nat.add_lt_add_left within _⟩

theorem Chain.head_eq_zero (chain : Chain bytes head nodes) : head = 0 ↔ nodes = [] := by
  cases chain with
  | nil => exact iff_of_true rfl rfl
  | cons some => exact iff_of_false some (List.cons_ne_nil _ _)

/-- Every node in turn becomes the first. -/
def pushAll (bytes : Nat → UInt8) (head : UInt64) (nodes : List UInt64) : (Nat → UInt8) × UInt64 :=
  nodes.foldl (fun (bytes, head) node => (storeWord bytes node.toNat head, node)) (bytes, head)

theorem pushAll_cons : pushAll bytes head (node :: nodes) = pushAll (storeWord bytes node.toNat head) node nodes := rfl

/-- Only the nodes themselves are written to. -/
theorem pushAll_apart {range : Range} (apart : ∀ node ∈ nodes, Range.Apart ⟨node.toNat, 8⟩ range)
    (covers : range.Covers address) : (pushAll bytes head nodes).1 address = bytes address := by
  induction nodes generalizing bytes head with
  | nil => rfl
  | cons node nodes ih =>
    rw [pushAll_cons, ih fun other member => apart other (List.mem_cons_of_mem _ member)]
    exact storeWord_apart (apart node (List.mem_cons_self ..)) covers

theorem Chain.pushAll {more : List UInt64} (chain : Chain bytes head nodes) (some : ∀ node ∈ more, node ≠ 0)
    (own : more.Pairwise fun first second => Range.Apart ⟨first.toNat, 8⟩ ⟨second.toNat, 8⟩)
    (apart : ∀ node ∈ more, ∀ other ∈ nodes, Range.Apart ⟨node.toNat, 8⟩ ⟨other.toNat, 8⟩) :
    Chain (pushAll bytes head more).1 (ByteMemory.pushAll bytes head more).2 (more.reverse ++ nodes) := by
  induction more generalizing bytes head nodes with
  | nil => exact chain
  | cons node more ih =>
    obtain ⟨before, own⟩ := List.pairwise_cons.mp own
    have pushed := chain.push (some node (List.mem_cons_self ..)) (apart node (List.mem_cons_self ..))
    rw [pushAll_cons, List.reverse_cons, List.append_assoc]
    refine ih pushed (fun other member => some other (List.mem_cons_of_mem _ member)) own
      fun other member earlier inside => ?_
    rcases List.mem_cons.mp inside with rfl | old
    · exact (before other member).symm
    · exact apart other (List.mem_cons_of_mem _ member) earlier old

end Exchange.ByteMemory
