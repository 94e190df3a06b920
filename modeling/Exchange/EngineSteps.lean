import Exchange.MatchWalk

/-! What each engine operation does to the resting orders, stated once. The
view of an engine is one queue per symbol and side; `add` walks one queue and
may put one order into another, `cancel` takes one order out, and everything
else stays. Results about runs use these descriptions and never unfold the
operations again. -/
namespace Exchange

/-- One side of one book; a symbol without a book has empty sides. -/
def MatchingEngine.levels (engine : MatchingEngine) (symbol : Bytes) (side : Side) : BookSide :=
  (engine.bookFor symbol).side side

/-- The resting orders of one symbol and side in priority order. -/
def MatchingEngine.resting (engine : MatchingEngine) (symbol : Bytes) (side : Side) : List Node :=
  queue side (engine.levels symbol side)

/-- Every resting order of the engine, book by book. -/
def MatchingEngine.orders (engine : MatchingEngine) : List Node :=
  engine.books.entries.flatMap fun entry => queue .buy entry.2.bids ++ queue .sell entry.2.asks

/-- Events with consecutive numbers, the first one after `sequence`. -/
def numbered (symbol : Bytes) : Int → List (EventType × Payload) → List ExecEvent
  | _, [] => []
  | sequence, (type, payload) :: rest =>
    ⟨sequence + 1, type, symbol, payload⟩ :: numbered symbol (sequence + 1) rest

/-- The event that closes an add: the remainder rests, is cancelled, or (for a
fill-or-kill remainder) is not mentioned. -/
def closing (cmd : AddOrder) (remaining : Int64) : List (EventType × Payload) :=
  if 0 < remaining then
    match cmd.timeInForce with
    | .gtc => [(.rested, [(.orderId, .int cmd.orderId), (.remaining, .int remaining)])]
    | .ioc | .market => [(.cancelled, [(.orderId, .int cmd.orderId), (.remaining, .int remaining)])]
    | .fok => []
  else []

/-- The remainder comes to rest. -/
def rests (cmd : AddOrder) (remaining : Int64) : Prop := 0 < remaining ∧ cmd.timeInForce = .gtc

instance (cmd : AddOrder) (remaining : Int64) : Decidable (rests cmd remaining) :=
  inferInstanceAs (Decidable (_ ∧ _))

/-- The walk an add takes in a given state. -/
def MatchingEngine.walkOf (engine : MatchingEngine) (cmd : AddOrder) : Walk :=
  walk cmd cmd.quantity (engine.resting cmd.symbol (opposite cmd.side))

/-- The fill-or-kill test that refuses an add before it is accepted. -/
def MatchingEngine.refuses (engine : MatchingEngine) (cmd : AddOrder) : Prop :=
  cmd.timeInForce = .fok ∧ availableVolume (engine.bookFor cmd.symbol) (opposite cmd.side)
    cmd.priceTicks < cmd.quantity

instance (engine : MatchingEngine) (cmd : AddOrder) : Decidable (engine.refuses cmd) :=
  inferInstanceAs (Decidable (_ ∧ _))

/-- Every event of an accepted add, in order. -/
def addReports (cmd : AddOrder) (walk : Walk) : List (EventType × Payload) :=
  (.accepted, [(.orderId, .int cmd.orderId), (.qty, .int cmd.quantity)]) ::
    (walk.steps.map (Step.report cmd) ++ closing cmd walk.remaining)

/-- The index once the orders a walk removed are forgotten. -/
def forgetAll (index : AList (fun _ : Int64 => Location)) (steps : List Step) :
    AList (fun _ : Int64 => Location) :=
  (steps.filterMap Step.removed).foldl (fun index order => index.erase order.orderId) index

namespace EngineSteps
variable {engine : MatchingEngine} {cmd : AddOrder} {symbol other : Bytes} {side : Side}

@[simp] theorem side_setSide (book : Book) (side : Side) (levels : BookSide) :
    (book.setSide side levels).side side = levels := by
  cases side <;> rfl

theorem side_setSide_ne (book : Book) {side written : Side} (different : side ≠ written)
    (levels : BookSide) : (book.setSide written levels).side side = book.side side := by
  cases side <;> cases written <;> first | rfl | exact absurd rfl different

@[simp] theorem bookFor_setBook (engine : MatchingEngine) (symbol : Bytes) (book : Book) :
    (engine.setBook symbol book).bookFor symbol = book := by
  simp [MatchingEngine.bookFor, MatchingEngine.setBook]

theorem bookFor_setBook_ne (engine : MatchingEngine) (different : other ≠ symbol) (book : Book) :
    (engine.setBook symbol book).bookFor other = engine.bookFor other := by
  simp [MatchingEngine.bookFor, MatchingEngine.setBook, AList.lookup_insert_ne different]

/-- The book view does not see the counter, the index or the allocator. -/
theorem levels_congr {first second : MatchingEngine} (same : first.books = second.books)
    (symbol : Bytes) (side : Side) : first.levels symbol side = second.levels symbol side := by
  simp [MatchingEngine.levels, MatchingEngine.bookFor, same]

theorem resting_of_levels {first second : MatchingEngine} {symbol : Bytes} {side : Side}
    (same : first.levels symbol side = second.levels symbol side) :
    first.resting symbol side = second.resting symbol side := by
  rw [MatchingEngine.resting, MatchingEngine.resting, same]

theorem resting_congr {first second : MatchingEngine} (same : first.books = second.books)
    (symbol : Bytes) (side : Side) : first.resting symbol side = second.resting symbol side :=
  resting_of_levels (levels_congr same symbol side)

/-- Writing one side of one book is visible there and nowhere else. -/
theorem levels_setSide (engine : MatchingEngine) (symbol : Bytes) (side : Side) (levels : BookSide) :
    (engine.setBook symbol ((engine.bookFor symbol).setSide side levels)).levels symbol side = levels := by
  simp [MatchingEngine.levels]

theorem levels_setSide_ne (engine : MatchingEngine) {written : Side} (levels : BookSide)
    (elsewhere : other ≠ symbol ∨ side ≠ written) :
    (engine.setBook symbol ((engine.bookFor symbol).setSide written levels)).levels other side =
      engine.levels other side := by
  by_cases same : other = symbol
  · subst same
    have different := elsewhere.resolve_left (not_not.mpr rfl)
    simp [MatchingEngine.levels, side_setSide_ne _ different]
  · simp [MatchingEngine.levels, bookFor_setBook_ne _ same]

/-- Opening a book that may not exist yet adds no order. -/
theorem levels_open (engine : MatchingEngine) (symbol other : Bytes) (side : Side) :
    (engine.setBook symbol (engine.bookFor symbol)).levels other side = engine.levels other side := by
  by_cases same : other = symbol
  · subst same
    simp [MatchingEngine.levels]
  · simp [MatchingEngine.levels, bookFor_setBook_ne _ same]

theorem mem_orders {order : Node} :
    order ∈ engine.orders ↔ ∃ symbol side, order ∈ engine.resting symbol side := by
  simp only [MatchingEngine.orders, List.mem_flatMap, List.mem_append]
  constructor
  · rintro ⟨⟨symbol, book⟩, stored, held⟩
    have found : engine.bookFor symbol = book := by
      simp [MatchingEngine.bookFor, AList.mem_lookup_iff.mpr stored |> Option.mem_def.mp]
    rcases held with bid | ask
    · exact ⟨symbol, .buy, by
      simpa [MatchingEngine.resting, MatchingEngine.levels, found, Book.side] using bid⟩
    · exact ⟨symbol, .sell, by
      simpa [MatchingEngine.resting, MatchingEngine.levels, found, Book.side] using ask⟩
  · rintro ⟨symbol, side, held⟩
    cases found : engine.books.lookup symbol with
    | none =>
      cases side <;> simp [MatchingEngine.resting, MatchingEngine.levels, MatchingEngine.bookFor,
        found, Book.side] at held
    | some book =>
      refine ⟨⟨symbol, book⟩, AList.mem_lookup_iff.mp found, ?_⟩
      cases side <;> simp only [MatchingEngine.resting, MatchingEngine.levels, MatchingEngine.bookFor,
        found, Option.getD_some, Book.side] at held
      · exact Or.inl held
      · exact Or.inr held

@[simp] theorem numbered_length (symbol : Bytes) (sequence : Int) (reports : List (EventType × Payload)) :
    (numbered symbol sequence reports).length = reports.length := by
  induction reports generalizing sequence with
  | nil => rfl
  | cons report rest ih => simp [numbered, ih]

theorem numbered_append (symbol : Bytes) (sequence : Int) (first second : List (EventType × Payload)) :
    numbered symbol sequence (first ++ second) =
      numbered symbol sequence first ++ numbered symbol (sequence + first.length) second := by
  induction first generalizing sequence with
  | nil => simp [numbered]
  | cons report rest ih =>
    simp only [List.cons_append, numbered, ih, List.length_cons, List.cons.injEq, true_and,
      List.append_cancel_left_eq]
    congr 1
    push_cast
    omega

theorem mem_numbered {symbol : Bytes} {sequence : Int} {reports : List (EventType × Payload)}
    {event : ExecEvent} (member : event ∈ numbered symbol sequence reports) :
    event.symbol = symbol ∧ (event.type, event.payload) ∈ reports := by
  induction reports generalizing sequence with
  | nil => cases member
  | cons report rest ih =>
    rcases List.mem_cons.mp member with rfl | later
    · exact ⟨rfl, by simp⟩
    · obtain ⟨same, held⟩ := ih later
      exact ⟨same, List.mem_cons_of_mem _ held⟩

/-- The walk's steps in the engine: one numbered event each, their trades, and
the removed orders forgotten. -/
theorem perform_eq (cmd : AddOrder) (state : MatchState) (steps : List Step) :
    (perform cmd state steps).events =
        state.events ++ numbered cmd.symbol state.sequence (steps.map (Step.report cmd)) ∧
      (perform cmd state steps).trades = state.trades ++ steps.filterMap (Step.trade cmd) ∧
      (perform cmd state steps).sequence = state.sequence + steps.length ∧
      (perform cmd state steps).index = forgetAll state.index steps := by
  induction steps generalizing state with
  | nil => simp [numbered, forgetAll]
  | cons step rest ih =>
    obtain ⟨events, trades, sequence, index⟩ := ih (step.act cmd state)
    rw [MatchWalk.perform_cons]
    refine ⟨?_, ?_, ?_, ?_⟩
    · rw [events]
      simp [Step.act, numbered]
    · rw [trades]
      cases step <;> simp [Step.act, Step.trade, List.filterMap_cons]
    · rw [sequence]
      simp only [Step.act, List.length_cons]
      push_cast
      omega
    · rw [index]
      cases removed : step.removed <;> simp [Step.act, forgetAll, removed]

/-! ## Resting and removing one order -/

/-- The node a remainder rests as. -/
def restingNode (engine : MatchingEngine) (cmd : AddOrder) (remaining : Int64) : Node where
  symbol := cmd.symbol
  orderId := cmd.orderId
  participantId := cmd.participantId
  side := cmd.side
  priceTicks := cmd.priceTicks
  remaining := remaining
  enteredSequence := engine.sequence
  addr := engine.nodes

/-- `next` holds the orders of `engine`, with `order` inserted last at its
price on its own side. -/
structure Inserted (engine : MatchingEngine) (order : Node) (next : MatchingEngine) : Prop where
  elsewhere : ∀ symbol side, symbol ≠ order.symbol ∨ side ≠ order.side →
    next.levels symbol side = engine.levels symbol side
  wellFormed : SideWellFormed order.symbol order.side (next.levels order.symbol order.side)
  queue : ∃ ahead behind, engine.resting order.symbol order.side = ahead ++ behind ∧
    next.resting order.symbol order.side = ahead ++ order :: behind ∧
    (∀ earlier ∈ ahead, beyond order.side order.priceTicks earlier.priceTicks = false) ∧
    (∀ later ∈ behind, beyond order.side order.priceTicks later.priceTicks = true)

/-- `next` holds the orders of `engine` except `order`. -/
structure Removed (engine : MatchingEngine) (order : Node) (next : MatchingEngine) : Prop where
  elsewhere : ∀ symbol side, symbol ≠ order.symbol ∨ side ≠ order.side →
    next.levels symbol side = engine.levels symbol side
  wellFormed : SideWellFormed order.symbol order.side (next.levels order.symbol order.side)
  queue : ∃ ahead behind, engine.resting order.symbol order.side = ahead ++ order :: behind ∧
    next.resting order.symbol order.side = ahead ++ behind

/-- A remainder goes to the end of the level of its price. -/
theorem restOrder_levels (engine : MatchingEngine) (cmd : AddOrder) (remaining : Int64) :
    (engine.restOrder cmd remaining).levels cmd.symbol cmd.side =
      (engine.levels cmd.symbol cmd.side).insert cmd.priceTicks
        (((engine.levels cmd.symbol cmd.side).find cmd.priceTicks).getD [] ++
          [restingNode engine cmd remaining]) :=
  levels_setSide engine cmd.symbol cmd.side _

theorem restOrder_inserted {remaining : Int64}
    (wf : SideWellFormed cmd.symbol cmd.side (engine.levels cmd.symbol cmd.side))
    (positive : 0 < remaining) :
    Inserted engine (restingNode engine cmd remaining) (engine.restOrder cmd remaining) := by
  have placed : Placed cmd.symbol cmd.side cmd.priceTicks (restingNode engine cmd remaining) :=
    ⟨rfl, rfl, rfl, positive⟩
  obtain ⟨after, split⟩ := PriceLevels.queue_insert_back wf placed
  have written := restOrder_levels engine cmd remaining
  refine ⟨?_, ?_, ?_⟩
  · intro symbol side elsewhere
    exact levels_setSide_ne engine _ elsewhere
  · rw [← written] at after
    exact after
  · simp only [MatchingEngine.resting]
    rw [show (restingNode engine cmd remaining).symbol = cmd.symbol from rfl,
      show (restingNode engine cmd remaining).side = cmd.side from rfl, written]
    exact split

/-- The order an index entry leads to, and what removing it does. -/
theorem removeResting_removed {orderId : Int64} {loc : Location} {order : Node}
    (entry : engine.index.lookup orderId = some loc) (reached : engine.deref loc = .ok order)
    (wf : SideWellFormed loc.symbol loc.side (engine.levels loc.symbol loc.side)) :
    order ∈ engine.resting loc.symbol loc.side ∧ order.addr = loc.iter ∧
      order.priceTicks = loc.price ∧ order.symbol = loc.symbol ∧ order.side = loc.side ∧
      Removed engine order (engine.removeResting orderId) := by
  unfold MatchingEngine.deref at reached
  cases found : ((engine.bookFor loc.symbol).side loc.side).find loc.price with
  | none => simp [found] at reached
  | some level =>
    cases held : level.find? (fun node => node.addr = loc.iter) with
    | none => simp [found, held] at reached
    | some node =>
      have same : node = order := by simpa [found, held] using reached
      subst same
      have inside := List.mem_of_find?_eq_some held
      have placed := PriceLevels.placed_of_find wf found inside
      obtain ⟨after, ahead, behind, whole, left⟩ := PriceLevels.queue_remove wf found held
      have written : (engine.removeResting orderId).levels loc.symbol loc.side =
          (if (level.eraseP (fun node => node.addr = loc.iter)).isEmpty
            then (engine.levels loc.symbol loc.side).erase loc.price
            else (engine.levels loc.symbol loc.side).insert loc.price
              (level.eraseP (fun node => node.addr = loc.iter))) := by
        unfold MatchingEngine.removeResting
        simp only [entry, found]
        exact levels_setSide engine loc.symbol loc.side _
      refine ⟨by simp [MatchingEngine.resting, whole], by simpa using List.find?_some held,
        placed.price, placed.symbol, placed.side, ?_⟩
      refine ⟨?_, ?_, ahead, behind, ?_, ?_⟩
      · intro symbol side elsewhere
        unfold MatchingEngine.removeResting
        simp only [entry]
        rw [placed.symbol, placed.side] at elsewhere
        exact levels_setSide_ne engine _ elsewhere
      · rw [placed.symbol, placed.side, written]
        exact after
      · rw [placed.symbol, placed.side]
        exact whole
      · simp only [MatchingEngine.resting]
        rw [placed.symbol, placed.side, written]
        exact left

/-! ## Adding -/

/-- `mid` is the engine when the matching loop of an accepted add ends. -/
structure Matched (engine : MatchingEngine) (cmd : AddOrder) (mid : MatchingEngine) : Prop where
  elsewhere : ∀ symbol side, symbol ≠ cmd.symbol ∨ side ≠ opposite cmd.side →
    mid.levels symbol side = engine.levels symbol side
  wellFormed : SideWellFormed cmd.symbol (opposite cmd.side) (mid.levels cmd.symbol (opposite cmd.side))
  rest : mid.resting cmd.symbol (opposite cmd.side) = (engine.walkOf cmd).rest
  index : mid.index = forgetAll engine.index (engine.walkOf cmd).steps
  sequence : mid.sequence = engine.sequence + 1 + (engine.walkOf cmd).steps.length
  nodes : mid.nodes = engine.nodes
  books : ∀ symbol, symbol ≠ cmd.symbol → mid.books.lookup symbol = engine.books.lookup symbol
  opened : cmd.symbol ∈ mid.books

/-- The engine once the remainder has been dealt with. -/
def settled (mid : MatchingEngine) (cmd : AddOrder) (remaining : Int64) : MatchingEngine :=
  let engine := if rests cmd remaining then mid.restOrder cmd remaining else mid
  { engine with sequence := mid.sequence + (closing cmd remaining).length }

theorem add_refused (refused : engine.refuses cmd) :
    engine.add cmd = .ok ({ engine.setBook cmd.symbol (engine.bookFor cmd.symbol) with
        sequence := engine.sequence + 1 },
      ⟨numbered cmd.symbol engine.sequence [(.rejected, [(.orderId, .int cmd.orderId),
        (.reason, .str (ascii "FOK_UNFILLABLE"))])], []⟩) := by
  unfold MatchingEngine.refuses at refused
  simp [MatchingEngine.add, refused, MatchingEngine.reject, MatchingEngine.event, numbered,
    MatchingEngine.setBook]

/-- An accepted add is its walk followed by the settling of the remainder. -/
theorem add_matched
    (wf : SideWellFormed cmd.symbol (opposite cmd.side) (engine.levels cmd.symbol (opposite cmd.side)))
    (accepted : ¬ engine.refuses cmd) :
    ∃ mid, Matched engine cmd mid ∧ engine.add cmd =
      (mid.settleRemainder cmd (engine.walkOf cmd).remaining).map (fun result => (result.1,
        ⟨numbered cmd.symbol engine.sequence
            ((.accepted, [(.orderId, .int cmd.orderId), (.qty, .int cmd.quantity)]) ::
              (engine.walkOf cmd).steps.map (Step.report cmd)) ++ result.2,
          (engine.walkOf cmd).steps.filterMap (Step.trade cmd)⟩)) := by
  let start : MatchState := ⟨cmd.quantity, [⟨engine.sequence + 1, .accepted, cmd.symbol,
    [(.orderId, .int cmd.orderId), (.qty, .int cmd.quantity)]⟩], [], engine.sequence + 1, engine.index⟩
  obtain ⟨left, ran, leftWf, leftQueue⟩ := MatchWalk.matchLevels_walk wf start
    (Nat.lt_succ_self _)
  change _ = Except.ok (left, perform cmd start (engine.walkOf cmd).steps) at ran
  obtain ⟨events, trades, sequence, index⟩ := perform_eq cmd start (engine.walkOf cmd).steps
  have remaining : (perform cmd start (engine.walkOf cmd).steps).remaining =
      (engine.walkOf cmd).remaining := MatchWalk.perform_remaining cmd start _
  let mid : MatchingEngine := { (engine.setBook cmd.symbol (engine.bookFor cmd.symbol)).setBook cmd.symbol
      ((engine.bookFor cmd.symbol).setSide (opposite cmd.side) left) with
    sequence := engine.sequence + 1 + (engine.walkOf cmd).steps.length
    index := forgetAll engine.index (engine.walkOf cmd).steps }
  have here : mid.levels cmd.symbol (opposite cmd.side) = left := by
    simp [mid, MatchingEngine.levels, MatchingEngine.bookFor, MatchingEngine.setBook]
  refine ⟨mid, ⟨?_, ?_, ?_, rfl, rfl, rfl, ?_, ?_⟩, ?_⟩
  · intro symbol side elsewhere
    by_cases same : symbol = cmd.symbol
    · subst same
      have different := elsewhere.resolve_left (not_not.mpr rfl)
      simp only [mid, MatchingEngine.levels, MatchingEngine.bookFor, MatchingEngine.setBook,
        AList.lookup_insert, Option.getD_some]
      exact side_setSide_ne _ different left
    · simp [mid, MatchingEngine.levels, MatchingEngine.bookFor, MatchingEngine.setBook,
        AList.lookup_insert_ne same]
  · rw [here]
    exact leftWf
  · rw [MatchingEngine.resting, here]
    exact leftQueue
  · intro symbol different
    simp [mid, MatchingEngine.setBook, AList.lookup_insert_ne different]
  · simp [mid, MatchingEngine.setBook]
  · unfold MatchingEngine.refuses at accepted
    have ran' : matchLevels cmd (((engine.bookFor cmd.symbol).side (opposite cmd.side)).entries.length + 1)
        ((engine.bookFor cmd.symbol).side (opposite cmd.side)) start =
      .ok (left, perform cmd start (engine.walkOf cmd).steps) := ran
    simp only [MatchingEngine.add, accepted, ↓reduceIte, MatchingEngine.event]
    simp only [MatchingEngine.setBook] at ran' ⊢
    rw [ran']
    simp only [bind, Except.bind, events, trades, sequence, index, remaining, start]
    simp only [mid, MatchingEngine.setBook, numbered]
    cases MatchingEngine.settleRemainder _ cmd _ <;> simp [Except.map]

end EngineSteps
end Exchange
