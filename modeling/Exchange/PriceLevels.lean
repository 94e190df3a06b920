import Exchange.Matching

/-! One side of a book read in priority order. `beyond side` is the strict
price priority of the side, `queue` the resting orders best price first and
first-in-first-out within a price, and a well-formed side is determined by
its queue: levels carry no information that the orders do not. -/
namespace Exchange

/-- The resting orders of a side in the order the matching loop meets them. -/
def queue (side : Side) (levels : BookSide) : List Node :=
  (bestFirst side levels).flatMap Prod.snd

/-- An order sits where its own fields say, and still has quantity. -/
structure Placed (symbol : Bytes) (side : Side) (price : Int64) (order : Node) : Prop where
  symbol : order.symbol = symbol
  side : order.side = side
  price : order.priceTicks = price
  remaining : 0 < order.remaining

/-- No empty level is stored, and every order belongs to its level. -/
structure SideWellFormed (symbol : Bytes) (side : Side) (levels : BookSide) : Prop where
  nonempty : ∀ entry ∈ levels.entries, entry.2 ≠ []
  placed : ∀ entry ∈ levels.entries, ∀ order ∈ entry.2, Placed symbol side entry.1 order

namespace PriceLevels
variable {side : Side} {levels : BookSide} {price other limit : Int64} {level previous : Level}
  {ahead behind : List (Int64 × Level)} {symbol : Bytes}

theorem beyond_trans (first : beyond side limit price = true)
    (second : beyond side price other = true) : beyond side limit other = true := by
  cases side <;> simp only [beyond, decide_eq_true_eq] at *
  · exact second.trans first
  · exact first.trans second

@[simp] theorem beyond_irrefl (side : Side) (price : Int64) : beyond side price price = false := by
  cases side <;> simp [beyond]

theorem beyond_asymm (before : beyond side price other = true) : beyond side other price = false := by
  cases side <;> simp only [beyond, decide_eq_true_eq, decide_eq_false_iff_not] at before ⊢
  · exact not_lt.mpr before.le
  · exact not_lt.mpr before.le

theorem beyond_ne (before : beyond side price other = true) : price ≠ other := by
  rintro rfl
  simp at before

theorem mem_bestFirst {entry : Int64 × Level} :
    entry ∈ bestFirst side levels ↔ entry ∈ levels.entries := by
  cases side <;> simp [bestFirst]

theorem bestFirst_length (side : Side) (levels : BookSide) :
    (bestFirst side levels).length = levels.entries.length := by
  cases side <;> simp [bestFirst]

theorem bestFirst_sorted (side : Side) (levels : BookSide) :
    (bestFirst side levels).Pairwise (fun left right => beyond side left.1 right.1 = true) := by
  cases side with
  | buy =>
    simp only [bestFirst, beyond, List.pairwise_reverse, decide_eq_true_eq]
    exact levels.sorted
  | sell =>
    simp only [bestFirst, beyond, decide_eq_true_eq]
    exact levels.sorted

theorem bestLevel_eq_head (side : Side) (levels : BookSide) :
    bestLevel side levels = (bestFirst side levels).head? := by
  cases side <;> simp [bestLevel, bestFirst]

@[simp] theorem bestFirst_empty (side : Side) : bestFirst side ∅ = [] := by
  cases side <;> rfl

private theorem entries_of_split (split : bestFirst side levels = ahead ++ (price, level) :: behind) :
    levels.entries = (match side with | .buy => behind.reverse | .sell => ahead) ++ (price, level) ::
      (match side with | .buy => ahead.reverse | .sell => behind) := by
  cases side with
  | buy =>
    simp only [bestFirst] at split
    have reversed := congrArg List.reverse split
    simpa using reversed
  | sell => exact split

theorem find_of_bestFirst (split : bestFirst side levels = ahead ++ (price, level) :: behind) :
    levels.find price = some level :=
  OrderedMap.find_of_split (entries_of_split split)

theorem bestFirst_of_find (side : Side) (found : levels.find price = some level) :
    ∃ ahead behind, bestFirst side levels = ahead ++ (price, level) :: behind :=
  List.append_of_mem (mem_bestFirst.mpr (OrderedMap.find_eq_some_iff.mp found))

/-- Writing a stored level changes that level only. -/
theorem bestFirst_insert (split : bestFirst side levels = ahead ++ (price, previous) :: behind)
    (level : Level) :
    bestFirst side (levels.insert price level) = ahead ++ (price, level) :: behind := by
  have entries := OrderedMap.entries_insert_of_split (entries_of_split split) level
  cases side with
  | buy => simp [bestFirst, entries]
  | sell => simpa [bestFirst] using entries

theorem bestFirst_erase (split : bestFirst side levels = ahead ++ (price, previous) :: behind) :
    bestFirst side (levels.erase price) = ahead ++ behind := by
  have entries := OrderedMap.entries_erase_of_split (entries_of_split split)
  cases side with
  | buy => simp [bestFirst, entries]
  | sell => simpa [bestFirst] using entries

/-- A new level goes behind every better price and ahead of every worse one. -/
theorem bestFirst_insert_absent (side : Side) (missing : levels.find price = none) (level : Level) :
    ∃ ahead behind, bestFirst side levels = ahead ++ behind ∧
      bestFirst side (levels.insert price level) = ahead ++ (price, level) :: behind ∧
      (∀ entry ∈ ahead, beyond side entry.1 price = true) ∧
      (∀ entry ∈ behind, beyond side price entry.1 = true) := by
  obtain ⟨before, after, shape, inserted, low, high⟩ :=
    OrderedMap.entries_insert_of_absent missing level
  cases side with
  | buy =>
    refine ⟨after.reverse, before.reverse, by simp [bestFirst, shape], by simp [bestFirst, inserted],
      ?_, ?_⟩
    · intro entry member
      simpa [beyond] using high entry (List.mem_reverse.mp member)
    · intro entry member
      simpa [beyond] using low entry (List.mem_reverse.mp member)
  | sell =>
    refine ⟨before, after, by simpa [bestFirst] using shape, by simpa [bestFirst] using inserted, ?_, ?_⟩
    · intro entry member
      simpa [beyond] using low entry member
    · intro entry member
      simpa [beyond] using high entry member

@[simp] theorem queue_empty (side : Side) : queue side ∅ = [] := by simp [queue]

theorem queue_of_split (split : bestFirst side levels = ahead ++ (price, level) :: behind) :
    queue side levels = ahead.flatMap Prod.snd ++ level ++ behind.flatMap Prod.snd := by
  simp [queue, split]

theorem mem_queue {order : Node} :
    order ∈ queue side levels ↔ ∃ price level, levels.find price = some level ∧ order ∈ level := by
  simp only [queue, List.mem_flatMap, mem_bestFirst, Prod.exists, OrderedMap.find_eq_some_iff]

theorem sideWellFormed_empty (symbol : Bytes) (side : Side) : SideWellFormed symbol side ∅ :=
  ⟨by simp, by simp⟩

theorem level_ne_nil (wf : SideWellFormed symbol side levels) (found : levels.find price = some level) :
    level ≠ [] :=
  wf.nonempty _ (OrderedMap.find_eq_some_iff.mp found)

theorem placed_of_find (wf : SideWellFormed symbol side levels)
    (found : levels.find price = some level) {order : Node} (member : order ∈ level) :
    Placed symbol side price order :=
  wf.placed _ (OrderedMap.find_eq_some_iff.mp found) order member

/-- On a well-formed side an order of the queue is in the level of its price. -/
theorem level_of_mem_queue (wf : SideWellFormed symbol side levels) {order : Node}
    (member : order ∈ queue side levels) :
    Placed symbol side order.priceTicks order ∧
      ∃ level, levels.find order.priceTicks = some level ∧ order ∈ level := by
  obtain ⟨price, level, found, inside⟩ := mem_queue.mp member
  have placed := placed_of_find wf found inside
  obtain rfl := placed.price
  exact ⟨placed, level, found, inside⟩

theorem wellFormed_of_bestFirst
    (entries : ∀ entry ∈ bestFirst side levels,
      entry.2 ≠ [] ∧ ∀ order ∈ entry.2, Placed symbol side entry.1 order) :
    SideWellFormed symbol side levels :=
  ⟨fun entry member => (entries entry (mem_bestFirst.mpr member)).1,
    fun entry member => (entries entry (mem_bestFirst.mpr member)).2⟩

theorem bestFirst_wellFormed (wf : SideWellFormed symbol side levels) :
    ∀ entry ∈ bestFirst side levels,
      entry.2 ≠ [] ∧ ∀ order ∈ entry.2, Placed symbol side entry.1 order := by
  intro entry member
  have stored := mem_bestFirst.mp member
  exact ⟨wf.nonempty entry stored, wf.placed entry stored⟩

/-- Along the queue prices never get better. -/
theorem queue_sorted (wf : SideWellFormed symbol side levels) :
    (queue side levels).Pairwise
      (fun earlier later => beyond side later.priceTicks earlier.priceTicks = false) := by
  have stored := bestFirst_wellFormed wf
  rw [queue, List.pairwise_flatMap]
  constructor
  · intro entry member
    apply List.pairwise_of_forall_mem_list
    intro earlier first later second
    rw [((stored entry member).2 earlier first).price, ((stored entry member).2 later second).price]
    simp
  · apply (bestFirst_sorted side levels).imp_of_mem
    intro left right leftMember rightMember before earlier first later second
    rw [((stored left leftMember).2 earlier first).price,
      ((stored right rightMember).2 later second).price]
    exact beyond_asymm before

/-- Changing one level keeps a side well formed when the new level is. -/
private theorem wellFormed_write (shape : bestFirst side levels = ahead ++ (price, level) :: behind)
    (kept : ∀ entry, entry ∈ ahead ∨ entry ∈ behind →
      entry.2 ≠ [] ∧ ∀ order ∈ entry.2, Placed symbol side entry.1 order)
    (nonempty : level ≠ []) (placed : ∀ order ∈ level, Placed symbol side price order) :
    SideWellFormed symbol side levels := by
  apply wellFormed_of_bestFirst
  intro entry member
  simp only [shape, List.mem_append, List.mem_cons] at member
  rcases member with earlier | rfl | later
  · exact kept entry (Or.inl earlier)
  · exact ⟨nonempty, placed⟩
  · exact kept entry (Or.inr later)

/-- A new order goes behind everything that is not worse and ahead of
everything that is: last at its price. -/
theorem queue_insert_back (wf : SideWellFormed symbol side levels) {order : Node}
    (placed : Placed symbol side price order) :
    SideWellFormed symbol side (levels.insert price ((levels.find price).getD [] ++ [order])) ∧
    ∃ ahead behind, queue side levels = ahead ++ behind ∧
      queue side (levels.insert price ((levels.find price).getD [] ++ [order])) =
        ahead ++ order :: behind ∧
      (∀ earlier ∈ ahead, beyond side price earlier.priceTicks = false) ∧
      (∀ later ∈ behind, beyond side price later.priceTicks = true) := by
  have stored := bestFirst_wellFormed wf
  cases found : levels.find price with
  | none =>
    obtain ⟨ahead, behind, shape, inserted, better, worse⟩ :=
      bestFirst_insert_absent side found [order]
    refine ⟨?_, ahead.flatMap Prod.snd, behind.flatMap Prod.snd, by simp [queue, shape],
      by simp [queue, inserted], ?_, ?_⟩
    · refine wellFormed_write inserted (fun entry member => stored entry ?_) (by simp)
        (by simpa using placed)
      rw [shape]
      exact List.mem_append.mpr member
    · intro earlier member
      obtain ⟨entry, inside, held⟩ := List.mem_flatMap.mp member
      rw [((stored entry (by simp [shape, inside])).2 earlier held).price]
      exact beyond_asymm (better entry inside)
    · intro later member
      obtain ⟨entry, inside, held⟩ := List.mem_flatMap.mp member
      rw [((stored entry (by simp [shape, inside])).2 later held).price]
      exact worse entry inside
  | some level =>
    obtain ⟨ahead, behind, split⟩ := bestFirst_of_find side found
    have inserted := bestFirst_insert split (level ++ [order])
    have sorted := bestFirst_sorted side levels
    rw [split] at sorted
    obtain ⟨-, fromHere, crossing⟩ := List.pairwise_append.mp sorted
    refine ⟨?_, ahead.flatMap Prod.snd ++ level, behind.flatMap Prod.snd, by simp [queue, split],
      by simp [queue, inserted], ?_, ?_⟩
    · refine wellFormed_write inserted (fun entry member => stored entry ?_) (by simp) ?_
      · rw [split, List.mem_append, List.mem_cons]
        exact member.imp_right Or.inr
      · intro held inside
        rcases List.mem_append.mp inside with old | new
        · exact (stored (price, level) (by simp [split])).2 held old
        · rw [List.mem_singleton.mp new]
          exact placed
    · intro earlier member
      rcases List.mem_append.mp member with better | same
      · obtain ⟨entry, inside, held⟩ := List.mem_flatMap.mp better
        rw [((stored entry (by simp [split, inside])).2 earlier held).price]
        exact beyond_asymm (crossing entry inside (price, level) (by simp))
      · rw [((stored (price, level) (by simp [split])).2 earlier same).price]
        simp
    · intro later member
      obtain ⟨entry, inside, held⟩ := List.mem_flatMap.mp member
      rw [((stored entry (by simp [split, inside])).2 later held).price]
      exact (List.pairwise_cons.mp fromHere).1 entry inside

/-- Taking one order out of its level takes it out of the queue, and an
emptied level goes with it. -/
theorem queue_remove (wf : SideWellFormed symbol side levels) (found : levels.find price = some level)
    {chosen : Node → Bool} {order : Node} (held : level.find? chosen = some order) :
    SideWellFormed symbol side (if (level.eraseP chosen).isEmpty then levels.erase price
      else levels.insert price (level.eraseP chosen)) ∧
    ∃ ahead behind, queue side levels = ahead ++ order :: behind ∧
      queue side (if (level.eraseP chosen).isEmpty then levels.erase price
        else levels.insert price (level.eraseP chosen)) = ahead ++ behind := by
  have stored := bestFirst_wellFormed wf
  obtain ⟨ahead, behind, split⟩ := bestFirst_of_find side found
  obtain ⟨matched, front, back, shape, before⟩ := List.find?_eq_some_iff_append.mp held
  have left : level.eraseP chosen = front ++ back := by
    rw [shape, List.eraseP_append_right _ (fun other member => by simpa using before other member),
      List.eraseP_cons_of_pos matched]
  rw [left]
  have whole : queue side levels =
      (ahead.flatMap Prod.snd ++ front) ++ order :: (back ++ behind.flatMap Prod.snd) := by
    simp [queue, split, shape]
  by_cases last : front ++ back = []
  · have erased := bestFirst_erase split
    simp only [last, List.isEmpty_nil, ↓reduceIte]
    refine ⟨?_, _, _, whole, ?_⟩
    · apply wellFormed_of_bestFirst
      rw [erased]
      intro entry member
      refine stored entry ?_
      rw [split, List.mem_append, List.mem_cons]
      exact (List.mem_append.mp member).imp_right Or.inr
    · obtain ⟨frontEmpty, backEmpty⟩ := List.append_eq_nil_iff.mp last
      simp [queue, erased, frontEmpty, backEmpty]
  · have written := bestFirst_insert split (front ++ back)
    simp only [List.isEmpty_iff, last, ↓reduceIte]
    refine ⟨?_, _, _, whole, by simp [queue, written]⟩
    refine wellFormed_write written (fun entry member => stored entry ?_) last ?_
    · rw [split, List.mem_append, List.mem_cons]
      exact member.imp_right Or.inr
    · intro held inside
      apply (stored (price, level) (by simp [split])).2 held
      rw [shape, List.mem_append, List.mem_cons]
      exact (List.mem_append.mp inside).imp_right Or.inr

/-- The orders the liquidity scan counts are the front of the queue, up to the limit. -/
theorem scanned_orders {symbol : Bytes} {side : Side} {levels : BookSide} (limit : Int64)
    (wf : SideWellFormed symbol side levels) :
    ((bestFirst side levels).takeWhile fun entry => !beyond side limit entry.1).flatMap Prod.snd =
      (queue side levels).takeWhile fun order => !beyond side limit order.priceTicks := by
  have stored := bestFirst_wellFormed wf
  unfold queue
  generalize bestFirst side levels = entries at stored
  induction entries with
  | nil => rfl
  | cons entry entries ih =>
    obtain ⟨filled, placed⟩ := stored entry (by simp)
    have later := ih fun entry member => stored entry (List.mem_cons_of_mem _ member)
    cases stops : beyond side limit entry.1 with
    | false =>
      have within : ∀ order ∈ entry.2, (!beyond side limit order.priceTicks) = true := by
        intro order member
        simp [(placed order member).price, stops]
      simp [List.takeWhile_append_of_pos within, stops, later]
    | true =>
      obtain ⟨order, rest, shape⟩ := List.exists_cons_of_ne_nil filled
      have first : beyond side limit order.priceTicks = true := by
        rw [(placed order (by simp [shape])).price]
        exact stops
      simp [shape, stops, first]

/-- The scan's total is taken over the front of the queue, up to the limit. -/
theorem availableVolume_eq {book : Book} {side : Side} (limit : Int64)
    (wf : SideWellFormed symbol side (book.side side)) :
    availableVolume book side limit =
      ((queue side (book.side side)).takeWhile fun order => !beyond side limit order.priceTicks).foldl
        (fun total order => total + order.remaining) 0 := by
  rw [availableVolume, ← List.foldl_flatMap, scanned_orders limit wf]

end PriceLevels
end Exchange
