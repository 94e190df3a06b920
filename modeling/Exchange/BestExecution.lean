import Exchange.Greedy
import Exchange.FillOrKill

/-! What an incoming order gets is the best there is to get. Its trades are a
greedy walk over the orders it may trade with, so no other choice of quantities
from these orders trades more, and none that trades as much has a better price. -/
namespace Exchange.BestExecution
open EngineSteps EngineInvariant VolumeLedger OnePass FillOrKill Greedy

variable {engine : MatchingEngine} {cmd : AddOrder}

/-- The orders an incoming one may trade with, best price first. -/
def offers (engine : MatchingEngine) (cmd : AddOrder) : List Node :=
  tradeable cmd (inReach cmd (engine.resting cmd.symbol (opposite cmd.side)))

def capacity (order : Node) : Int := order.remaining.toInt

def price (order : Node) : Int := order.priceTicks.toInt

/-- What a unit costs the incoming order: a seller gives up what it is not paid. -/
def cost (side : Side) (order : Node) : Int :=
  match side with
  | .buy => price order
  | .sell => -price order

/-- A fill, as a part of the order filled. -/
def filled : Step → Option (Node × Int)
  | .fill passive qty => some (passive, qty.toInt)
  | _ => none

/-- The trade that a part of an order becomes. -/
def tradeOfPart (cmd : AddOrder) (part : Node × Int) : Trade := tradeOf cmd part.1 (Int64.ofInt part.2)

/-- What the buyer pays in some trades together. -/
def paid (trades : List Trade) : Int :=
  (trades.map fun trade => trade.priceTicks.toInt * trade.quantity.toInt).sum

theorem offers_sublist (engine : MatchingEngine) (cmd : AddOrder) :
    (offers engine cmd).Sublist (engine.resting cmd.symbol (opposite cmd.side)) :=
  (tradeable_sublist cmd _).trans (List.takeWhile_sublist _)

/-- Within the limit a walk takes greedily from the orders it may trade with. -/
theorem walk_parts {queue : List Node} (open_ : ∀ order ∈ queue, priceStops cmd order.priceTicks = false)
    (positive : ∀ order ∈ queue, 0 < order.remaining) (remaining : Int64) :
    (walk cmd remaining queue).steps.filterMap filled = take capacity remaining.toInt (tradeable cmd queue) := by
  induction queue generalizing remaining with
  | nil =>
    have none_ : tradeable cmd [] = [] := List.sublist_nil.mp (tradeable_sublist cmd [])
    rw [none_]
    rfl
  | cons passive rest ih =>
    obtain ⟨opens, openRest⟩ := List.forall_mem_cons.mp open_
    obtain ⟨here, later⟩ := List.forall_mem_cons.mp positive
    by_cases done : remaining ≤ 0
    · rw [MatchWalk.walk_done cmd done, take_none (Int64.le_iff_toInt_le.mp done)]
      rfl
    have started : ¬ (remaining ≤ 0 ∨ priceStops cmd passive.priceTicks = true) := by simp [done, opens]
    have wants : ¬ remaining.toInt ≤ 0 := fun none_ => done (Int64.le_iff_toInt_le.mpr none_)
    rw [walk, if_neg started]
    by_cases own : passive.participantId = cmd.participantId ∧ cmd.stp ≠ .none
    · rw [if_pos own, tradeable_own own.1 own.2]
      cases mode : cmd.stp with
      | none => exact absurd mode own.2
      | cancelAggressor => rfl
      | cancelPassive => exact ih openRest later remaining
      | cancelBoth => rfl
    · rw [if_neg own, tradeable_other own, take, if_neg wants]
      by_cases partly : remaining < passive.remaining
      · have less : remaining.toInt < capacity passive := Int64.lt_iff_toInt_lt.mp partly
        rw [if_pos partly, if_pos less]
        rfl
      · have whole : ¬ remaining.toInt < capacity passive := mt Int64.lt_iff_toInt_lt.mpr partly
        have left := toInt_sub_of_le here (not_lt.mp partly)
        rw [if_neg partly, if_neg whole]
        refine (List.filterMap_cons_some (f := filled) rfl).trans ?_
        rw [ih openRest later, left]
        rfl

/-- What adds up over the fills adds up over their trades. -/
theorem sum_trades {ofTrade : Trade → Int} {ofPart : Node × Int → Int}
    (agree : ∀ passive qty trade, Step.trade cmd (.fill passive qty) = some trade →
      ofTrade trade = ofPart (passive, qty.toInt))
    (steps : List Step) :
    ((steps.filterMap (Step.trade cmd)).map ofTrade).sum = ((steps.filterMap filled).map ofPart).sum := by
  induction steps with
  | nil => rfl
  | cons step steps ih =>
    cases step with
    | fill passive qty =>
      rw [List.filterMap_cons_some (f := Step.trade cmd) rfl, List.filterMap_cons_some (f := filled) rfl,
        List.map_cons, List.map_cons, List.sum_cons, List.sum_cons, ih, agree passive qty _ rfl]
    | cancelPassive passive => exact ih
    | cancelAggressor remaining => exact ih

theorem trades_steps (cmd : AddOrder) (steps : List Step) :
    steps.filterMap (Step.trade cmd) = (steps.filterMap filled).map (tradeOfPart cmd) := by
  induction steps with
  | nil => rfl
  | cons step steps ih =>
    cases step with
    | fill passive qty =>
      have same : tradeOfPart cmd (passive, qty.toInt) = tradeOf cmd passive qty := by
        rw [tradeOfPart, Int64.ofInt_toInt]
      rw [List.filterMap_cons_some (f := Step.trade cmd) rfl, List.filterMap_cons_some (f := filled) rfl,
        List.map_cons, same, ih]
    | cancelPassive passive => exact ih
    | cancelAggressor remaining => exact ih

theorem traded_steps (cmd : AddOrder) (steps : List Step) :
    tradedQty (steps.filterMap (Step.trade cmd)) = amount (steps.filterMap filled) := by
  apply sum_trades
  intro passive qty trade made
  obtain rfl := Option.some.inj made
  rfl

theorem paid_steps (cmd : AddOrder) (steps : List Step) :
    paid (steps.filterMap (Step.trade cmd)) = bill price (steps.filterMap filled) := by
  apply sum_trades
  intro passive qty trade made
  obtain rfl := Option.some.inj made
  rfl

/-- The cheaper orders come first, whichever side they are on. -/
theorem offers_sorted (wf : WellFormed engine) (cmd : AddOrder) :
    (offers engine cmd).Pairwise fun earlier later => cost cmd.side earlier ≤ cost cmd.side later := by
  have queued := PriceLevels.queue_sorted (wf.sides cmd.symbol (opposite cmd.side))
  refine (queued.imp ?_).sublist (offers_sublist engine cmd)
  intro earlier later sorted
  cases side : cmd.side with
  | buy =>
    rw [side] at sorted
    have order : ¬ later.priceTicks < earlier.priceTicks := of_decide_eq_false sorted
    exact Int64.le_iff_toInt_le.mp (not_lt.mp order)
  | sell =>
    rw [side] at sorted
    have order : ¬ earlier.priceTicks < later.priceTicks := of_decide_eq_false sorted
    exact neg_le_neg (Int64.le_iff_toInt_le.mp (not_lt.mp order))

/-- In every reachable engine, the trades of an order that is not refused are,
one by one, parts of the orders it may trade with, together of no more than it
asks for. No shares that ask for no more trade more, and none that trade as much
buy for less, or sell for more. -/
theorem adds_execute_best (reachable : Reachable engine) (cmd : AddOrder) (accepted : ¬ engine.refuses cmd) :
    ∃ next outcome, engine.add cmd = .ok (next, outcome) ∧
      (∃ parts, Shares capacity (offers engine cmd) parts ∧ outcome.trades = (used parts).map (tradeOfPart cmd) ∧
        amount parts = tradedQty outcome.trades ∧ bill price parts = paid outcome.trades) ∧
      tradedQty outcome.trades ≤ max cmd.quantity.toInt 0 ∧
      ∀ parts, Shares capacity (offers engine cmd) parts →
        min cmd.quantity.toInt (amount parts) ≤ tradedQty outcome.trades ∧
          (amount parts = tradedQty outcome.trades →
            match cmd.side with
            | .buy => paid outcome.trades ≤ bill price parts
            | .sell => bill price parts ≤ paid outcome.trades) := by
  have wf := reachable_wellFormed reachable
  obtain ⟨mid, -, -, ran⟩ := add_accepted wf accepted
  have taken : (engine.walkOf cmd).steps.filterMap filled =
      take capacity cmd.quantity.toInt (offers engine cmd) := by
    rw [MatchingEngine.walkOf, walk_inReach (queue_meets_limit_once wf cmd)]
    exact walk_parts (inReach_open cmd _) (inReach_positive wf cmd) cmd.quantity
  have positive : ∀ order ∈ offers engine cmd, 0 < capacity order := fun order member =>
    Int64.lt_iff_toInt_lt.mp (inReach_positive wf cmd order (mem_of_tradeable member))
  have trades := trades_steps cmd (engine.walkOf cmd).steps
  rw [taken] at trades
  obtain ⟨parts, shares, used_⟩ := take_shares positive cmd.quantity.toInt
  obtain ⟨same, cost_⟩ := used_shares price shares
  refine ⟨_, _, ran, ?_⟩
  simp only [traded_steps, paid_steps, taken]
  rw [used_] at same cost_
  refine ⟨⟨parts, shares, by rw [used_]; exact trades, same.symm, cost_.symm⟩, take_le capacity _ _, ?_⟩
  intro parts shares
  refine ⟨take_most shares _, fun equal => ?_⟩
  obtain ⟨least, cheapest⟩ := exists_least (cost cmd.side) (offers engine cmd)
  have best := take_cheapest shares (offers_sorted wf cmd) cheapest (le_refl 0) (equal.trans (add_zero _).symm)
  rw [mul_zero, add_zero] at best
  cases side : cmd.side with
  | buy =>
    rw [side] at best
    exact best
  | sell =>
    rw [side] at best
    have sold := (bill_neg price _).symm.trans_le (best.trans_eq (bill_neg price parts))
    exact neg_le_neg_iff.mp sold

/-- Two asks at different prices, the dearer one entered first. -/
def twoAsks : List Command :=
  [.add { symbol := ascii "S", orderId := 1, participantId := ascii "A", side := .sell, priceTicks := 102,
          quantity := 4 },
    .add { symbol := ascii "S", orderId := 2, participantId := ascii "B", side := .sell, priceTicks := 100,
           quantity := 3 }]

/-- It takes the cheaper ask and a part of the other. -/
def buyFive : AddOrder :=
  { symbol := ascii "S", orderId := 3, participantId := ascii "C", priceTicks := 102, quantity := 5 }

theorem buy_five_executes_best :
    ∃ next outcome, (engineAfter twoAsks).add buyFive = .ok (next, outcome) ∧
      (∃ parts, Shares capacity (offers (engineAfter twoAsks) buyFive) parts ∧
        outcome.trades = (used parts).map (tradeOfPart buyFive) ∧ amount parts = tradedQty outcome.trades ∧
        bill price parts = paid outcome.trades) ∧
      tradedQty outcome.trades ≤ 5 ∧
      ∀ parts, Shares capacity (offers (engineAfter twoAsks) buyFive) parts →
        min 5 (amount parts) ≤ tradedQty outcome.trades ∧
          (amount parts = tradedQty outcome.trades → paid outcome.trades ≤ bill price parts) :=
  adds_execute_best (reachable_engineAfter twoAsks) buyFive (by decide)

end Exchange.BestExecution
