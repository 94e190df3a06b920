import Exchange.PriceLevels

/-! The matching loop as one pass over the opposite queue. `walk` says once,
in priority order, what an incoming order does to each resting order it
meets; `perform` is what those steps do to the engine. The nested loops of
`add` are shown to take exactly these steps, so that every later result is an
induction over one list. -/
namespace Exchange

/-- What the incoming order does at one point of its walk. -/
inductive Step where
  | fill (passive : Node) (qty : Int64)
  | cancelPassive (passive : Node)
  | cancelAggressor (remaining : Int64)

/-- The steps taken, the quantity left, and the queue left behind. -/
structure Walk where
  steps : List Step
  remaining : Int64
  rest : List Node

def Walk.after (step : Step) (later : Walk) : Walk := { later with steps := step :: later.steps }

/-- Priority order, own orders treated as the self-trade mode says, until the
quantity is gone or the price limit is met. -/
def walk (cmd : AddOrder) : Int64 → List Node → Walk
  | remaining, [] => ⟨[], remaining, []⟩
  | remaining, passive :: rest =>
    if remaining ≤ 0 ∨ priceStops cmd passive.priceTicks then ⟨[], remaining, passive :: rest⟩
    else if passive.participantId = cmd.participantId ∧ cmd.stp ≠ .none then
      match cmd.stp with
      | .cancelBoth => ⟨[.cancelPassive passive, .cancelAggressor remaining], 0, rest⟩
      | .cancelAggressor => ⟨[.cancelAggressor remaining], 0, passive :: rest⟩
      | _ => (walk cmd remaining rest).after (.cancelPassive passive)
    else if remaining < passive.remaining then
      ⟨[.fill passive remaining], 0, { passive with remaining := passive.remaining - remaining } :: rest⟩
    else (walk cmd (remaining - passive.remaining) rest).after (.fill passive passive.remaining)

/-- Going on with more queue: only a walk that used up its own part does. -/
def Walk.onward (cmd : AddOrder) (first : Walk) (queue : List Node) : Walk :=
  if first.rest = [] then
    let second := walk cmd first.remaining queue
    ⟨first.steps ++ second.steps, second.remaining, second.rest⟩
  else { first with rest := first.rest ++ queue }

/-- The trade of one fill. -/
def tradeOf (cmd : AddOrder) (passive : Node) (qty : Int64) : Trade where
  symbol := cmd.symbol
  priceTicks := passive.priceTicks
  quantity := qty
  buyerOrderId := if cmd.side = .buy then cmd.orderId else passive.orderId
  sellerOrderId := if cmd.side = .buy then passive.orderId else cmd.orderId
  buyerParticipantId := if cmd.side = .buy then cmd.participantId else passive.participantId
  sellerParticipantId := if cmd.side = .buy then passive.participantId else cmd.participantId
  passiveOrderId := passive.orderId
  aggressiveOrderId := cmd.orderId

/-- The kind and payload of the event a step emits. -/
def Step.report (cmd : AddOrder) : Step → EventType × Payload
  | .fill passive qty => (.executed,
      [(.aggressiveOrderId, .int cmd.orderId), (.passiveOrderId, .int passive.orderId),
        (.priceTicks, .int passive.priceTicks), (.qty, .int qty)])
  | .cancelPassive passive => (.cancelled,
      [(.orderId, .int passive.orderId), (.reason, .str (ascii "SELF_TRADE_PREVENTION")),
        (.remaining, .int passive.remaining)])
  | .cancelAggressor remaining => (.cancelled,
      [(.orderId, .int cmd.orderId), (.reason, .str (ascii "SELF_TRADE_PREVENTION")),
        (.remaining, .int remaining)])

def Step.trade (cmd : AddOrder) : Step → Option Trade
  | .fill passive qty => some (tradeOf cmd passive qty)
  | _ => none

/-- The resting order a step acts on. -/
def Step.passive : Step → Option Node
  | .fill passive _ => some passive
  | .cancelPassive passive => some passive
  | .cancelAggressor _ => none

/-- The order a step takes off the book, if it takes one. -/
def Step.removed : Step → Option Node
  | .fill passive qty => if qty = passive.remaining then some passive else none
  | .cancelPassive passive => some passive
  | .cancelAggressor _ => none

/-- The incoming quantity left once a step is done. -/
def Step.left (remaining : Int64) : Step → Int64
  | .fill _ qty => remaining - qty
  | .cancelPassive _ => remaining
  | .cancelAggressor _ => 0

def Step.act (cmd : AddOrder) (state : MatchState) (step : Step) : MatchState where
  remaining := step.left state.remaining
  events := state.events ++ [⟨state.sequence + 1, (step.report cmd).1, cmd.symbol, (step.report cmd).2⟩]
  trades := state.trades ++ (step.trade cmd).toList
  sequence := state.sequence + 1
  index := match step.removed with
    | some order => state.index.erase order.orderId
    | none => state.index

/-- The engine-visible effect of a whole walk. -/
def perform (cmd : AddOrder) (state : MatchState) (steps : List Step) : MatchState :=
  steps.foldl (Step.act cmd) state

namespace MatchWalk
variable {cmd : AddOrder} {state : MatchState} {passive : Node} {rest : List Node}
  {remaining : Int64} {symbol : Bytes} {side : Side} {price : Int64} {level : Level}

@[simp] theorem perform_nil (cmd : AddOrder) (state : MatchState) : perform cmd state [] = state := rfl

@[simp] theorem perform_cons (cmd : AddOrder) (state : MatchState) (step : Step) (steps : List Step) :
    perform cmd state (step :: steps) = perform cmd (step.act cmd state) steps := rfl

theorem perform_append (cmd : AddOrder) (state : MatchState) (first second : List Step) :
    perform cmd state (first ++ second) = perform cmd (perform cmd state first) second := by
  simp [perform]

theorem buildTrade_ok (passive : Node) {qty : Int64} (positive : 0 < qty)
    (sameSymbol : passive.symbol = cmd.symbol) :
    buildTrade cmd passive.toRestingOrder qty = .ok (tradeOf cmd passive qty) := by
  cases hside : cmd.side <;>
    simp [buildTrade, tradeOf, hside, not_le.mpr positive, sameSymbol]

theorem walk_done (cmd : AddOrder) (done : remaining ≤ 0) (queue : List Node) :
    walk cmd remaining queue = ⟨[], remaining, queue⟩ := by
  cases queue with
  | nil => rfl
  | cons passive rest => simp [walk, done]

private theorem onward_after (first : Walk) (step : Step) (queue : List Node) :
    (first.after step).onward cmd queue = (first.onward cmd queue).after step := by
  by_cases used : first.rest = [] <;> simp [Walk.onward, Walk.after, used]

/-- A walk over two stretches of queue is the second walk after the first one,
which reaches it only by using up the first stretch. -/
theorem walk_append (cmd : AddOrder) (remaining : Int64) (first second : List Node) :
    walk cmd remaining (first ++ second) = (walk cmd remaining first).onward cmd second := by
  induction first generalizing remaining with
  | nil => simp [walk, Walk.onward]
  | cons passive rest ih =>
    simp only [List.cons_append, walk]
    split
    · simp [Walk.onward]
    · split
      · split
        · by_cases last : rest = []
          · simp [last, Walk.onward, walk_done]
          · simp [last, Walk.onward]
        · simp [Walk.onward]
        · rw [ih, onward_after]
      · split
        · simp [Walk.onward]
        · rw [ih, onward_after]

/-- An order on which the walk can act: priced within the limit, of the
incoming order's symbol, and with quantity left. -/
structure Facing (cmd : AddOrder) (passive : Node) : Prop where
  symbol : passive.symbol = cmd.symbol
  remaining : 0 < passive.remaining

private theorem sub_positive {larger smaller : Int64} (positive : 0 < smaller)
    (less : smaller < larger) : 0 < larger - smaller := by
  grind

/-- One iteration of the inner loop takes the first step of the walk. -/
theorem matchFront_walk (facing : Facing cmd passive) (more : 0 < state.remaining)
    (open_ : priceStops cmd passive.priceTicks = false) (rest : Level) :
    (∃ step, matchFront cmd passive rest state = .ok (.again, rest, step.act cmd state) ∧
      walk cmd state.remaining (passive :: rest) =
        (walk cmd (step.left state.remaining) rest).after step) ∨
    (∃ flow level steps, matchFront cmd passive rest state =
        .ok (flow, level, perform cmd state steps) ∧ (perform cmd state steps).remaining = 0 ∧
      walk cmd state.remaining (passive :: rest) = ⟨steps, 0, level⟩) := by
  have positive := facing.remaining
  have started : ¬ (state.remaining ≤ 0 ∨ priceStops cmd passive.priceTicks = true) := by
    simp [not_le.mpr more, open_]
  by_cases own : passive.participantId = cmd.participantId ∧ cmd.stp ≠ .none
  · cases mode : cmd.stp with
    | none => exact absurd mode own.2
    | cancelPassive =>
      left
      refine ⟨.cancelPassive passive, ?_, ?_⟩
      · simp [matchFront, own.1, mode, Step.act, Step.report, Step.trade, Step.removed, Step.left,
          MatchState.event, MatchState.forget]
      · simp only [walk, started, own.1, mode]
        simp [Step.left]
    | cancelAggressor =>
      right
      refine ⟨.leave, passive :: rest, [.cancelAggressor state.remaining], ?_, rfl, ?_⟩
      · simp [matchFront, own.1, mode, Step.act, Step.report, Step.trade, Step.removed, Step.left,
          MatchState.event]
      · simp only [walk, started, own.1, mode]
        simp
    | cancelBoth =>
      right
      refine ⟨.leave, rest, [.cancelPassive passive, .cancelAggressor state.remaining], ?_, rfl, ?_⟩
      · simp [matchFront, own.1, mode, Step.act, Step.report, Step.trade, Step.removed, Step.left,
          MatchState.event, MatchState.forget]
      · simp only [walk, started, own.1, mode]
        simp
  · by_cases partly : state.remaining < passive.remaining
    · right
      have short := sub_positive more partly
      refine ⟨.again, { passive with remaining := passive.remaining - state.remaining } :: rest,
        [.fill passive state.remaining], ?_, by simp [Step.act, Step.left], ?_⟩
      · have traded : buildTrade cmd
            { passive with remaining := passive.remaining - state.remaining }.toRestingOrder
            state.remaining = .ok (tradeOf cmd passive state.remaining) :=
          buildTrade_ok { passive with remaining := passive.remaining - state.remaining }
            more facing.symbol
        have notAll : state.remaining ≠ passive.remaining := partly.ne
        simp only [matchFront, own, ↓reduceIte, partly, not_le.mpr more, not_lt.mpr short.le, traded]
        simp [short.ne', Step.act, Step.report, Step.trade, Step.removed, Step.left,
          MatchState.event, notAll, bind, Except.bind]
      · simp only [walk, started, own, partly]
        simp
    · left
      refine ⟨.fill passive passive.remaining, ?_, ?_⟩
      · have traded : buildTrade cmd
            { passive with remaining := passive.remaining - passive.remaining }.toRestingOrder
            passive.remaining = .ok (tradeOf cmd passive passive.remaining) :=
          buildTrade_ok { passive with remaining := passive.remaining - passive.remaining }
            positive facing.symbol
        simp only [matchFront, own, ↓reduceIte, partly, not_le.mpr positive, traded]
        simp [Step.act, Step.report, Step.trade, Step.removed, Step.left,
          MatchState.event, MatchState.forget, bind, Except.bind]
      · simp only [walk, started, own, partly]
        simp [Step.left]

/-- The inner loop walks its level, and the model's fuel never runs out. -/
theorem matchLevel_walk (facing : ∀ order ∈ level, Facing cmd order)
    (open_ : ∀ order ∈ level, priceStops cmd order.priceTicks = false) (state : MatchState)
    {fuel : Nat} (enough : level.length < fuel) :
    matchLevel cmd fuel level state = .ok ((walk cmd state.remaining level).rest,
      perform cmd state (walk cmd state.remaining level).steps) := by
  induction level generalizing state fuel with
  | nil =>
    obtain ⟨fuel, rfl⟩ := Nat.exists_eq_add_one.mpr (Nat.zero_lt_of_lt enough)
    simp [matchLevel, walk]
  | cons passive rest ih =>
    obtain ⟨fuel, rfl⟩ := Nat.exists_eq_add_one.mpr (Nat.zero_lt_of_lt enough)
    have fits : rest.length < fuel := by simpa using enough
    by_cases more : 0 < state.remaining
    · rcases matchFront_walk (facing passive (by simp)) more (open_ passive (by simp)) rest with
        ⟨step, ran, walked⟩ | ⟨flow, level, steps, ran, spent, walked⟩
      · have later := ih (fun order member => facing order (List.mem_cons_of_mem _ member))
          (fun order member => open_ order (List.mem_cons_of_mem _ member)) (step.act cmd state) fits
        simp only [matchLevel, more, ↓reduceIte, ran, bind, Except.bind, later, walked, Walk.after,
          perform_cons]
        rfl
      · -- The front stays only when the incoming quantity is gone, so the next test ends the loop.
        cases flow with
        | leave => simp [matchLevel, more, ran, bind, Except.bind, walked]
        | again =>
          obtain ⟨fuel, rfl⟩ := Nat.exists_eq_add_one.mpr (Nat.zero_lt_of_lt fits)
          simp [matchLevel, more, ran, bind, Except.bind, walked, spent]
    · simp [matchLevel, more, walk_done cmd (not_lt.mp more)]

theorem perform_remaining (cmd : AddOrder) (state : MatchState) (queue : List Node) :
    (perform cmd state (walk cmd state.remaining queue).steps).remaining =
      (walk cmd state.remaining queue).remaining := by
  suffices general : ∀ (remaining : Int64) (state : MatchState), state.remaining = remaining →
      (perform cmd state (walk cmd remaining queue).steps).remaining =
        (walk cmd remaining queue).remaining from general _ state rfl
  intro remaining state
  induction queue generalizing remaining state with
  | nil => simp [walk]
  | cons passive rest ih =>
    rintro rfl
    simp only [walk]
    split
    · rfl
    · split
      · split
        · rfl
        · rfl
        · exact ih _ (Step.act cmd state (.cancelPassive passive)) rfl
      · split
        · simp [Step.act, Step.left]
        · exact ih _ (Step.act cmd state (.fill passive passive.remaining)) rfl

/-- The walk takes orders off the front of the queue, one after the other, and
leaves the others in place, the first of them possibly smaller. -/
theorem walk_rest (cmd : AddOrder) (remaining : Int64) (queue : List Node) :
    ∃ kept, queue = (walk cmd remaining queue).steps.filterMap Step.removed ++ kept ∧
      ((walk cmd remaining queue).rest = kept ∨
        ∃ order qty tail, kept = order :: tail ∧ 0 < qty ∧ qty < order.remaining ∧
          (walk cmd remaining queue).rest = { order with remaining := order.remaining - qty } :: tail) := by
  induction queue generalizing remaining with
  | nil => exact ⟨[], rfl, Or.inl rfl⟩
  | cons passive rest ih =>
    simp only [walk]
    split
    · exact ⟨passive :: rest, rfl, Or.inl rfl⟩
    · rename_i started
      split
      · split
        · exact ⟨rest, rfl, Or.inl rfl⟩
        · exact ⟨passive :: rest, rfl, Or.inl rfl⟩
        · obtain ⟨kept, shape, left⟩ := ih remaining
          exact ⟨kept, congrArg (passive :: ·) shape, left⟩
      · split
        · rename_i partly
          refine ⟨passive :: rest, ?_, Or.inr ⟨passive, remaining, rest, rfl, ?_, partly, rfl⟩⟩
          · simp [Step.removed, partly.ne]
          · exact not_le.mp fun done => started (Or.inl done)
        · obtain ⟨kept, shape, left⟩ := ih (remaining - passive.remaining)
          refine ⟨kept, ?_, left⟩
          simpa [Walk.after, Step.removed] using shape

/-- Every order left by the walk was there before, with at least as much quantity. -/
theorem mem_walk_rest {order : Node} (member : order ∈ (walk cmd remaining rest).rest) :
    ∃ original ∈ rest, ∃ left, order = { original with remaining := left } ∧
      (left = original.remaining ∨ (0 < left ∧ left < original.remaining)) := by
  obtain ⟨kept, shape, same | ⟨first, qty, tail, rfl, positive, less, same⟩⟩ :=
    walk_rest cmd remaining rest
  · rw [same] at member
    exact ⟨order, by rw [shape]; simp [member], order.remaining, rfl, Or.inl rfl⟩
  · rw [same] at member
    rcases List.mem_cons.mp member with rfl | later
    · refine ⟨first, by rw [shape]; simp, _, rfl, Or.inr ⟨sub_positive positive less, ?_⟩⟩
      grind
    · exact ⟨order, by rw [shape]; simp [later], order.remaining, rfl, Or.inl rfl⟩

/-- A walk acts on orders of its queue only. -/
theorem walk_acts_on_queue {remaining : Int64} {queue : List Node} {step : Step} {passive : Node}
    (taken : step ∈ (walk cmd remaining queue).steps) (acts : step.passive = some passive) :
    passive ∈ queue := by
  induction queue generalizing remaining with
  | nil => simp [walk] at taken
  | cons front rest ih =>
    simp only [walk] at taken
    split at taken
    · simp at taken
    · split at taken
      · split at taken
        · rcases List.mem_cons.mp taken with rfl | later
          · cases acts
            exact List.mem_cons_self
          · rw [List.mem_singleton.mp later] at acts
            cases acts
        · rw [List.mem_singleton.mp taken] at acts
          cases acts
        · rcases List.mem_cons.mp taken with rfl | later
          · cases acts
            exact List.mem_cons_self
          · exact List.mem_cons_of_mem _ (ih later)
      · split at taken
        · rw [List.mem_singleton.mp taken] at acts
          cases acts
          exact List.mem_cons_self
        · rcases List.mem_cons.mp taken with rfl | later
          · cases acts
            exact List.mem_cons_self
          · exact List.mem_cons_of_mem _ (ih later)

theorem placed_walk_rest (placed : ∀ order ∈ rest, Placed symbol side price order) :
    ∀ order ∈ (walk cmd remaining rest).rest, Placed symbol side price order := by
  intro order member
  obtain ⟨original, held, left, rfl, amount⟩ := mem_walk_rest member
  have place := placed original held
  refine ⟨place.symbol, place.side, place.price, ?_⟩
  rcases amount with rfl | ⟨positive, -⟩
  · exact place.remaining
  · exact positive

/-- Past the limit nothing is touched. -/
theorem walk_stopped (stops : ∀ order ∈ rest, priceStops cmd order.priceTicks = true) :
    walk cmd remaining rest = ⟨[], remaining, rest⟩ := by
  cases rest with
  | nil => rfl
  | cons passive rest => simp [walk, stops passive (by simp)]

/-- The limit is monotone along the queue: once a level stops the loop, no
later level would have let it go on. -/
theorem priceStops_of_beyond {other : Int64} (stops : priceStops cmd price = true)
    (further : beyond (opposite cmd.side) price other = true) : priceStops cmd other = true := by
  simp only [priceStops, Bool.and_eq_true] at stops ⊢
  exact ⟨stops.1, PriceLevels.beyond_trans stops.2 further⟩

/-- Within the limit the walk stops early only when its quantity is gone. -/
theorem walk_spent (open_ : ∀ order ∈ rest, priceStops cmd order.priceTicks = false)
    (left : (walk cmd remaining rest).rest ≠ []) : (walk cmd remaining rest).remaining ≤ 0 := by
  induction rest generalizing remaining with
  | nil => exact absurd rfl left
  | cons passive rest ih =>
    have later := fun order member => open_ order (List.mem_cons_of_mem passive member)
    simp only [walk] at left ⊢
    split at left
    · rename_i stopped
      simp only [stopped, ↓reduceIte]
      exact stopped.resolve_right (by simp [open_ passive (by simp)])
    · rename_i started
      simp only [started, ↓reduceIte]
      split at left
      · rename_i own
        simp only [own, ne_eq, not_false_eq_true, and_self, ↓reduceIte]
        split at left
        · exact Int64.le_refl _
        · exact Int64.le_refl _
        · exact ih later left
      · rename_i other
        simp only [other, ↓reduceIte]
        split at left
        · rename_i partly
          simp [partly]
        · rename_i whole
          simp only [whole, ↓reduceIte]
          exact ih later left

/-- When the limit stops at the best level, it stops at every resting order. -/
theorem queue_stopped {levels : BookSide} (wf : SideWellFormed cmd.symbol (opposite cmd.side) levels)
    {price : Int64} {level : Level} {tail : List (Int64 × Level)}
    (shape : bestFirst (opposite cmd.side) levels = (price, level) :: tail) (stops : priceStops cmd price = true) :
    ∀ order ∈ queue (opposite cmd.side) levels, priceStops cmd order.priceTicks = true := by
  have stored := PriceLevels.bestFirst_wellFormed wf
  have sorted := PriceLevels.bestFirst_sorted (opposite cmd.side) levels
  rw [shape] at stored sorted
  intro order member
  rw [queue, shape] at member
  obtain ⟨entry, held, inside⟩ := List.mem_flatMap.mp member
  rw [((stored entry held).2 order inside).price]
  rcases List.mem_cons.mp held with rfl | behind
  · exact stops
  · exact priceStops_of_beyond stops ((List.pairwise_cons.mp sorted).1 entry behind)

section Turn
variable {levels : BookSide} {price : Int64} {level : Level} {tail : List (Int64 × Level)}
  (wf : SideWellFormed cmd.symbol (opposite cmd.side) levels)
  (shape : bestFirst (opposite cmd.side) levels = (price, level) :: tail)
include wf shape

/-- The orders of the best level, which the limit does not stop. -/
theorem best_level_open (open_ : priceStops cmd price = false) : ∀ order ∈ level,
    Placed cmd.symbol (opposite cmd.side) price order ∧ priceStops cmd order.priceTicks = false ∧
    Facing cmd order := by
  have stored := PriceLevels.bestFirst_wellFormed wf
  rw [shape] at stored
  intro order member
  have placed := (stored (price, level) (by simp)).2 order member
  exact ⟨placed, by rw [placed.price, open_], placed.symbol, placed.remaining⟩

/-- One turn of the outer loop walks the best level. -/
theorem matchLevels_turn (state : MatchState) (more : 0 < state.remaining) (open_ : priceStops cmd price = false)
    (fuel : Nat) : matchLevels cmd (fuel + 1) levels state =
      matchLevels cmd fuel
        (if (walk cmd state.remaining level).rest = [] then levels.erase price
          else levels.insert price (walk cmd state.remaining level).rest)
        (perform cmd state (walk cmd state.remaining level).steps) := by
  have orders := best_level_open wf shape open_
  have inner := matchLevel_walk (fun order member => (orders order member).2.2)
    (fun order member => (orders order member).2.1) state (Nat.lt_succ_self level.length)
  simp [matchLevels, more, PriceLevels.bestLevel_eq_head, shape, open_, inner, bind, Except.bind]

/-- A used up level leaves the side well-formed. -/
theorem erase_best_wellFormed : SideWellFormed cmd.symbol (opposite cmd.side) (levels.erase price) ∧
    bestFirst (opposite cmd.side) (levels.erase price) = tail := by
  have stored := PriceLevels.bestFirst_wellFormed wf
  rw [shape] at stored
  have split : bestFirst (opposite cmd.side) levels = [] ++ (price, level) :: tail := shape
  have erased := PriceLevels.bestFirst_erase split
  refine ⟨?_, erased⟩
  apply PriceLevels.wellFormed_of_bestFirst
  rw [erased]
  exact fun entry member => stored entry (by simpa using Or.inr member)

/-- So does a level with orders left. -/
theorem insert_best_wellFormed {kept : Level} (some_ : kept ≠ [])
    (placed : ∀ order ∈ kept, Placed cmd.symbol (opposite cmd.side) price order) :
    SideWellFormed cmd.symbol (opposite cmd.side) (levels.insert price kept) ∧
      bestFirst (opposite cmd.side) (levels.insert price kept) = (price, kept) :: tail := by
  have stored := PriceLevels.bestFirst_wellFormed wf
  rw [shape] at stored
  have split : bestFirst (opposite cmd.side) levels = [] ++ (price, level) :: tail := shape
  have written := PriceLevels.bestFirst_insert split kept
  refine ⟨?_, written⟩
  apply PriceLevels.wellFormed_of_bestFirst
  rw [written]
  intro entry member
  rcases List.mem_cons.mp member with rfl | later
  · exact ⟨some_, placed⟩
  · exact stored entry (by simp [later])

end Turn

/-- The outer loop walks the whole opposite queue. It neither throws nor runs
out of fuel, and it leaves a well-formed side behind. -/
theorem matchLevels_walk {levels : BookSide}
    (wf : SideWellFormed cmd.symbol (opposite cmd.side) levels) (state : MatchState)
    {fuel : Nat} (enough : levels.entries.length < fuel) :
    ∃ left, matchLevels cmd fuel levels state = .ok (left, perform cmd state
        (walk cmd state.remaining (queue (opposite cmd.side) levels)).steps) ∧
      SideWellFormed cmd.symbol (opposite cmd.side) left ∧
      queue (opposite cmd.side) left =
        (walk cmd state.remaining (queue (opposite cmd.side) levels)).rest := by
  rw [← PriceLevels.bestFirst_length (opposite cmd.side)] at enough
  generalize shape : bestFirst (opposite cmd.side) levels = entries at enough
  induction entries generalizing levels state fuel with
  | nil =>
    obtain ⟨fuel, rfl⟩ := Nat.exists_eq_add_one.mpr (Nat.zero_lt_of_lt enough)
    refine ⟨levels, ?_, wf, by simp [queue, shape, walk]⟩
    simp [matchLevels, PriceLevels.bestLevel_eq_head, shape, queue, walk]
  | cons best tail ih =>
    obtain ⟨price, level⟩ := best
    obtain ⟨fuel, rfl⟩ := Nat.exists_eq_add_one.mpr (Nat.zero_lt_of_lt enough)
    have fits : tail.length < fuel := by simpa using enough
    have queued : queue (opposite cmd.side) levels = level ++ tail.flatMap Prod.snd := by
      simp [queue, shape]
    by_cases more : 0 < state.remaining
    · by_cases stops : priceStops cmd price = true
      · have stopped := queue_stopped wf shape stops
        refine ⟨levels, ?_, wf, by rw [walk_stopped stopped]⟩
        simp [matchLevels, more, PriceLevels.bestLevel_eq_head, shape, stops, walk_stopped stopped]
      · have open_ : priceStops cmd price = false := by simpa using stops
        have orders := best_level_open wf shape open_
        have onward := walk_append cmd state.remaining level (tail.flatMap Prod.snd)
        rw [matchLevels_turn wf shape state more open_, queued, onward, Walk.onward]
        by_cases used : (walk cmd state.remaining level).rest = []
        · obtain ⟨erasedWf, erased⟩ := erase_best_wellFormed wf shape
          obtain ⟨left, ran, leftWf, leftQueue⟩ := ih erasedWf
            (perform cmd state (walk cmd state.remaining level).steps) erased fits
          rw [perform_remaining, show queue (opposite cmd.side) (levels.erase price) =
            tail.flatMap Prod.snd by simp [queue, erased]] at ran leftQueue
          rw [if_pos used, if_pos used, perform_append]
          exact ⟨left, ran, leftWf, leftQueue⟩
        · -- The level stays only when the quantity is gone, so this is the last iteration.
          have spent := walk_spent (fun order member => (orders order member).2.1) used
          obtain ⟨keptWf, kept⟩ := insert_best_wellFormed wf shape used
            (placed_walk_rest fun order member => (orders order member).1)
          obtain ⟨fuel, rfl⟩ := Nat.exists_eq_add_one.mpr (Nat.zero_lt_of_lt fits)
          rw [if_neg used, if_neg used]
          refine ⟨_, ?_, keptWf, by simp [queue, kept]⟩
          simp [matchLevels, perform_remaining, not_lt.mpr spent]
    · refine ⟨levels, ?_, wf, by rw [walk_done cmd (not_lt.mp more)]⟩
      simp [matchLevels, more, walk_done cmd (not_lt.mp more)]

/-- Quantity is left only when every order that stays is past the limit. -/
theorem walk_rest_stops (cmd : AddOrder) (remaining : Int64)
    (sorted : rest.Pairwise (fun earlier later => priceStops cmd earlier.priceTicks = true →
      priceStops cmd later.priceTicks = true))
    (more : 0 < (walk cmd remaining rest).remaining) :
    ∀ order ∈ (walk cmd remaining rest).rest, priceStops cmd order.priceTicks = true := by
  induction rest generalizing remaining with
  | nil => simp [walk]
  | cons passive rest ih =>
    obtain ⟨first, later⟩ := List.pairwise_cons.mp sorted
    simp only [walk] at more ⊢
    split at more
    · rename_i stopped
      simp only [stopped, ↓reduceIte]
      have stops := stopped.resolve_left (not_le.mpr more)
      intro order member
      rcases List.mem_cons.mp member with rfl | behind
      · exact stops
      · exact first order behind stops
    · rename_i started
      simp only [started, ↓reduceIte]
      split at more
      · rename_i own
        simp only [own, ne_eq, not_false_eq_true, and_self, ↓reduceIte]
        split at more
        · exact absurd more (lt_irrefl 0)
        · exact absurd more (lt_irrefl 0)
        · exact ih _ later more
      · rename_i foreign
        simp only [foreign, ↓reduceIte]
        split at more
        · exact absurd more (lt_irrefl 0)
        · rename_i whole
          simp only [whole, ↓reduceIte]
          exact ih _ later more

end MatchWalk
end Exchange
