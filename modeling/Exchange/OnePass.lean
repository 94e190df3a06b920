import Exchange.EngineInvariant

/-! What an add is for, in one pass: list the opposite side best price first
and first come first served within a price, cut the list at the limit, and go
over it once with the quantity left. The nested loops of `add`, the level they
select again after every exit and the levels they erase do not appear here,
and the result is the same. -/
namespace Exchange

/-- The price is worse than the limit; a market order has none. -/
def violatesLimit (cmd : AddOrder) (price : Int64) : Bool :=
  match cmd.timeInForce, cmd.side with
  | .market, _ => false
  | _, .buy => cmd.priceTicks < price
  | _, .sell => price < cmd.priceTicks

/-- The orders before the first one that violates the limit. -/
def inReach (cmd : AddOrder) (queue : List Node) : List Node :=
  queue.takeWhile fun order => !violatesLimit cmd order.priceTicks

/-- The first order that violates the limit and everything behind it. -/
def outOfReach (cmd : AddOrder) (queue : List Node) : List Node :=
  queue.dropWhile fun order => !violatesLimit cmd order.priceTicks

/-- What the pass carries along: the quantity left, what it has traded and
reported, and the orders it leaves on the book. -/
structure Pass where
  remaining : Int64
  trades : List Trade := []
  reports : List (EventType × Payload) := []
  left : List Node := []

/-- The incoming order meets one resting order. -/
def meet (cmd : AddOrder) (pass : Pass) (order : Node) : Pass :=
  if pass.remaining ≤ 0 then { pass with left := pass.left ++ [order] }
  else if order.participantId ≠ cmd.participantId ∨ cmd.stp = .none then
    let qty := min pass.remaining order.remaining
    { remaining := pass.remaining - qty
      trades := pass.trades ++ [tradeOf cmd order qty]
      reports := pass.reports ++ [(Step.fill order qty).report cmd]
      left := pass.left ++
        if qty < order.remaining then [{ order with remaining := order.remaining - qty }] else [] }
  else
    { pass with
      remaining := if cmd.stp = .cancelPassive then pass.remaining else 0
      reports := pass.reports ++
        (if cmd.stp = .cancelAggressor then [] else [(Step.cancelPassive order).report cmd]) ++
        if cmd.stp = .cancelPassive then [] else [(Step.cancelAggressor pass.remaining).report cmd]
      left := pass.left ++ if cmd.stp = .cancelAggressor then [order] else [] }

/-- The whole pass over the orders in reach. -/
def onePass (cmd : AddOrder) (queue : List Node) : Pass :=
  (inReach cmd queue).foldl (meet cmd) { remaining := cmd.quantity }

/-- The call turned `engine` into `next` with `outcome`, as the pass over the
opposite side says. -/
structure FollowsPass (engine : MatchingEngine) (cmd : AddOrder) (pass : Pass) (next : MatchingEngine)
    (outcome : Outcome) : Prop where
  trades : outcome.trades = pass.trades
  events : outcome.events = numbered cmd.symbol engine.sequence
    ((.accepted, [(.orderId, .int cmd.orderId), (.qty, .int cmd.quantity)]) ::
      (pass.reports ++ closing cmd pass.remaining))
  opposite : next.resting cmd.symbol (opposite cmd.side) =
    pass.left ++ outOfReach cmd (engine.resting cmd.symbol (opposite cmd.side))
  /-- Orders go from the front; the one now in front may have lost a part, and
  then the last trade was with it. -/
  cut : ∃ gone kept, engine.resting cmd.symbol (Exchange.opposite cmd.side) = gone ++ kept ∧
    (next.resting cmd.symbol (Exchange.opposite cmd.side) = kept ∨
      ∃ order qty behind, kept = order :: behind ∧ 0 < qty ∧ qty < order.remaining ∧
        outcome.trades.getLast? = some (tradeOf cmd order qty) ∧
        next.resting cmd.symbol (Exchange.opposite cmd.side) =
          { order with remaining := order.remaining - qty } :: behind)
  /-- A good-till-cancelled remainder goes to the back of its own level. -/
  rested : rests cmd pass.remaining →
    next.levels cmd.symbol cmd.side = (engine.levels cmd.symbol cmd.side).insert cmd.priceTicks
      (((engine.levels cmd.symbol cmd.side).find cmd.priceTicks).getD [] ++
        [{ symbol := cmd.symbol, orderId := cmd.orderId, participantId := cmd.participantId,
           side := cmd.side, priceTicks := cmd.priceTicks, remaining := pass.remaining,
           enteredSequence := engine.sequence + 1 + pass.reports.length, addr := engine.nodes }])
  /-- Any other remainder leaves no order. -/
  unrested : ¬ rests cmd pass.remaining →
    next.levels cmd.symbol cmd.side = engine.levels cmd.symbol cmd.side
  elsewhere : ∀ symbol, symbol ≠ cmd.symbol → next.books.lookup symbol = engine.books.lookup symbol

namespace OnePass
open EngineSteps EngineInvariant
variable {engine next : MatchingEngine} {cmd : AddOrder}

/-- The loop's two price tests are the limit. -/
theorem priceStops_eq (cmd : AddOrder) (price : Int64) : priceStops cmd price = violatesLimit cmd price := by
  cases tif : cmd.timeInForce <;> cases side : cmd.side <;>
    simp [priceStops, violatesLimit, tif, side, opposite, beyond]

theorem inReach_open (cmd : AddOrder) (queue : List Node) :
    ∀ order ∈ inReach cmd queue, priceStops cmd order.priceTicks = false := by
  intro order member
  have within := List.mem_takeWhile_imp member
  rw [priceStops_eq]
  simpa using within

/-- With the quantity gone the pass keeps every order. -/
theorem fold_done (queue : List Node) (pass : Pass) (done : pass.remaining ≤ 0) :
    queue.foldl (meet cmd) pass = { pass with left := pass.left ++ queue } := by
  induction queue generalizing pass with
  | nil => simp
  | cons order rest ih =>
    rw [List.foldl_cons, meet, if_pos done]
    rw [ih { pass with left := pass.left ++ [order] } done]
    simp

/-- A pass continued by what a walk did. -/
def continued (cmd : AddOrder) (pass : Pass) (walk : Walk) : Pass where
  remaining := walk.remaining
  trades := pass.trades ++ walk.steps.filterMap (Step.trade cmd)
  reports := pass.reports ++ walk.steps.map (Step.report cmd)
  left := pass.left ++ walk.rest

/-- Within the limit the pass is the walk. -/
theorem fold_walk {queue : List Node} (open_ : ∀ order ∈ queue, priceStops cmd order.priceTicks = false)
    (pass : Pass) : queue.foldl (meet cmd) pass = continued cmd pass (walk cmd pass.remaining queue) := by
  induction queue generalizing pass with
  | nil => simp [walk, continued]
  | cons order rest ih =>
    have later := fun other member => open_ other (List.mem_cons_of_mem order member)
    by_cases done : pass.remaining ≤ 0
    · rw [fold_done _ _ done, MatchWalk.walk_done cmd done]
      simp [continued]
    · have started : ¬ (pass.remaining ≤ 0 ∨ priceStops cmd order.priceTicks = true) := by
        simp [done, open_ order (by simp)]
      rw [List.foldl_cons, meet, if_neg done, walk, if_neg started]
      by_cases own : order.participantId = cmd.participantId ∧ cmd.stp ≠ .none
      · have notOther : ¬ (order.participantId ≠ cmd.participantId ∨ cmd.stp = .none) := by tauto
        rw [if_neg notOther, if_pos own]
        cases mode : cmd.stp with
        | none => exact absurd mode own.2
        | cancelPassive =>
          rw [ih later]
          simp [continued, Walk.after, Step.trade, List.filterMap_cons]
        | cancelAggressor =>
          rw [fold_done _ _ (by simp)]
          simp [continued, Step.trade]
        | cancelBoth =>
          rw [fold_done _ _ (by simp)]
          simp [continued, Step.trade]
      · have other : order.participantId ≠ cmd.participantId ∨ cmd.stp = .none := by tauto
        rw [if_pos other, if_neg own]
        by_cases partly : pass.remaining < order.remaining
        · rw [min_eq_left partly.le, fold_done _ _ (by simp)]
          simp [continued, partly, Step.trade]
        · rw [min_eq_right (not_lt.mp partly), ih later]
          simp [continued, partly, Walk.after, Step.trade]

/-- The walk never gets past the limit. -/
theorem walk_inReach {queue : List Node}
    (sorted : queue.Pairwise fun earlier later => priceStops cmd earlier.priceTicks = true →
      priceStops cmd later.priceTicks = true) (remaining : Int64) :
    walk cmd remaining queue = { walk cmd remaining (inReach cmd queue) with
      rest := (walk cmd remaining (inReach cmd queue)).rest ++ outOfReach cmd queue } := by
  have parts : inReach cmd queue ++ outOfReach cmd queue = queue := List.takeWhile_append_dropWhile
  have stopped : ∀ order ∈ outOfReach cmd queue, priceStops cmd order.priceTicks = true := by
    rw [← parts] at sorted
    cases shape : outOfReach cmd queue with
    | nil => simp
    | cons first behind =>
      have stops : priceStops cmd first.priceTicks = true := by
        have front := List.head?_dropWhile_not (fun order : Node => !violatesLimit cmd order.priceTicks) queue
        rw [← outOfReach, shape] at front
        rw [priceStops_eq]
        simpa using front
      rw [shape] at sorted
      have tail := (List.pairwise_append.mp sorted).2.1
      intro order member
      rcases List.mem_cons.mp member with rfl | later
      · exact stops
      · exact (List.pairwise_cons.mp tail).1 order later stops
  calc walk cmd remaining queue
      = walk cmd remaining (inReach cmd queue ++ outOfReach cmd queue) := by rw [parts]
    _ = (walk cmd remaining (inReach cmd queue)).onward cmd (outOfReach cmd queue) :=
        MatchWalk.walk_append cmd remaining _ _
    _ = _ := by
      rw [Walk.onward, MatchWalk.walk_stopped stopped]
      split
      · rename_i used
        simp [used]
      · rfl

/-- The orders the walk takes away come from the front, and one it only made
smaller is the one of its last trade. -/
theorem walk_cut (cmd : AddOrder) (remaining : Int64) (queue : List Node) :
    ∃ gone kept, queue = gone ++ kept ∧ ((walk cmd remaining queue).rest = kept ∨
      ∃ order qty behind, kept = order :: behind ∧ 0 < qty ∧ qty < order.remaining ∧
        ((walk cmd remaining queue).steps.filterMap (Step.trade cmd)).getLast? = some (tradeOf cmd order qty) ∧
        (walk cmd remaining queue).rest = { order with remaining := order.remaining - qty } :: behind) := by
  induction queue generalizing remaining with
  | nil => exact ⟨[], [], rfl, Or.inl rfl⟩
  | cons passive rest ih =>
    simp only [walk]
    split
    · exact ⟨[], passive :: rest, rfl, Or.inl rfl⟩
    · rename_i started
      split
      · split
        · exact ⟨[passive], rest, rfl, Or.inl rfl⟩
        · exact ⟨[], passive :: rest, rfl, Or.inl rfl⟩
        · obtain ⟨gone, kept, shape, left⟩ := ih remaining
          exact ⟨passive :: gone, kept, congrArg (passive :: ·) shape, left⟩
      · split
        · rename_i partly
          have more : 0 < remaining := not_le.mp fun done => started (Or.inl done)
          exact ⟨[], passive :: rest, rfl, Or.inr ⟨passive, remaining, rest, rfl, more, partly, rfl, rfl⟩⟩
        · obtain ⟨gone, kept, shape, left⟩ := ih (remaining - passive.remaining)
          refine ⟨passive :: gone, kept, congrArg (passive :: ·) shape, ?_⟩
          refine left.imp_right ?_
          rintro ⟨order, qty, behind, same, more, partly, last, left⟩
          refine ⟨order, qty, behind, same, more, partly, ?_, left⟩
          simp [Walk.after, Step.trade, List.getLast?_cons, last]

/-- The pass over the opposite side is the walk of the add. -/
theorem onePass_walkOf (wf : WellFormed engine) (cmd : AddOrder) :
    let pass := onePass cmd (engine.resting cmd.symbol (opposite cmd.side))
    (engine.walkOf cmd).remaining = pass.remaining ∧
      (engine.walkOf cmd).steps.filterMap (Step.trade cmd) = pass.trades ∧
      (engine.walkOf cmd).steps.map (Step.report cmd) = pass.reports ∧
      (engine.walkOf cmd).rest =
        pass.left ++ outOfReach cmd (engine.resting cmd.symbol (opposite cmd.side)) := by
  have passed : onePass cmd (engine.resting cmd.symbol (opposite cmd.side)) =
      continued cmd { remaining := cmd.quantity } (walk cmd cmd.quantity
        (inReach cmd (engine.resting cmd.symbol (opposite cmd.side)))) :=
    fold_walk (inReach_open cmd _) _
  rw [MatchingEngine.walkOf, walk_inReach (queue_meets_limit_once wf cmd), passed]
  simp [continued]

/-- Where the remainder rests, and that it changes nothing else. -/
theorem settled_levels (mid : MatchingEngine) (cmd : AddOrder) (remaining : Int64) :
    (settled mid cmd remaining).levels cmd.symbol cmd.side =
        (if rests cmd remaining then (mid.levels cmd.symbol cmd.side).insert cmd.priceTicks
          (((mid.levels cmd.symbol cmd.side).find cmd.priceTicks).getD [] ++ [restingNode mid cmd remaining])
          else mid.levels cmd.symbol cmd.side) ∧
      (settled mid cmd remaining).levels cmd.symbol (opposite cmd.side) =
        mid.levels cmd.symbol (opposite cmd.side) ∧
      ∀ symbol, symbol ≠ cmd.symbol →
        (settled mid cmd remaining).books.lookup symbol = mid.books.lookup symbol := by
  unfold settled
  split
  · refine ⟨restOrder_levels mid cmd remaining, levels_setSide_ne mid _ (Or.inr (opposite_ne cmd.side)), ?_⟩
    intro symbol different
    simp [MatchingEngine.restOrder, MatchingEngine.setBook, AList.lookup_insert_ne different]
  · exact ⟨rfl, rfl, fun _ _ => rfl⟩

/-- In every reachable state an add that is not refused as unfillable returns,
and its trades, its events, the opposite side and what becomes of the
remainder are those of the pass. -/
theorem add_is_one_pass (reachable : Reachable engine) (cmd : AddOrder) (accepted : ¬ engine.refuses cmd) :
    ∃ next outcome, engine.add cmd = .ok (next, outcome) ∧
      FollowsPass engine cmd (onePass cmd (engine.resting cmd.symbol (opposite cmd.side))) next outcome := by
  have wf := reachable_wellFormed reachable
  obtain ⟨mid, matched, -, ran⟩ := add_accepted wf accepted
  obtain ⟨remaining, trades, reports, left⟩ := onePass_walkOf wf cmd
  obtain ⟨own, facing, elsewhere⟩ := settled_levels mid cmd (engine.walkOf cmd).remaining
  have faces : (settled mid cmd (engine.walkOf cmd).remaining).resting cmd.symbol (opposite cmd.side) =
      (engine.walkOf cmd).rest := (resting_of_levels facing).trans matched.rest
  rw [matched.elsewhere _ _ (Or.inr (opposite_ne cmd.side).symm)] at own
  refine ⟨_, _, ran, ?_⟩
  constructor
  · exact trades
  · rw [addReports, reports, remaining]
  · rw [faces, left]
  · rw [faces]
    exact walk_cut cmd cmd.quantity _
  · intro resting
    rw [← remaining] at resting ⊢
    rw [own, if_pos resting, ← reports, List.length_map, ← matched.sequence, ← matched.nodes]
    rfl
  · intro unrested
    rw [← remaining] at unrested
    rw [own, if_neg unrested]
  · intro symbol different
    rw [elsewhere symbol different, matched.books symbol different]

/-- Two asks at one price, the first of them the buyer's own, and one behind. -/
def ladder : List Command :=
  [.add { symbol := ascii "S", orderId := 1, participantId := ascii "A", side := .sell, priceTicks := 100,
          quantity := 2 },
    .add { symbol := ascii "S", orderId := 2, participantId := ascii "B", side := .sell, priceTicks := 100,
           quantity := 3 },
    .add { symbol := ascii "S", orderId := 3, participantId := ascii "B", side := .sell, priceTicks := 101,
           quantity := 4 }]

/-- It cancels its own order, fills the second and takes a part of the third. -/
def sweep : AddOrder :=
  { symbol := ascii "S", orderId := 4, participantId := ascii "A", priceTicks := 101, quantity := 4,
    stp := .cancelPassive }

theorem sweep_is_one_pass :
    ∃ next outcome, (engineAfter ladder).add sweep = .ok (next, outcome) ∧
      FollowsPass (engineAfter ladder) sweep
        (onePass sweep ((engineAfter ladder).resting (ascii "S") .sell)) next outcome :=
  add_is_one_pass (reachable_engineAfter ladder) sweep (by decide)

end OnePass
end Exchange
