import Exchange.OnePass
import Exchange.VolumeLedger

/-! Fill or kill. `available_volume` counts every order within the limit, the
participant's own ones included, and `add` then matches under the self-trade
mode: what the scan counted it may cancel or stop at. The end of `add` has no
branch for a fill-or-kill remainder, so whatever is missing then disappears. -/
namespace Exchange

/-- The order was refused: one event says so, nothing traded, and the resting
orders and the index are what they were. -/
structure Killed (engine : MatchingEngine) (cmd : AddOrder) (next : MatchingEngine) (outcome : Outcome) :
    Prop where
  trades : outcome.trades = []
  events : outcome.events.map (fun event => (event.type, event.symbol, event.payload)) =
    [(.rejected, cmd.symbol, [(.orderId, .int cmd.orderId), (.reason, .str (ascii "FOK_UNFILLABLE"))])]
  levels : ∀ symbol side, next.levels symbol side = engine.levels symbol side
  index : next.index = engine.index

/-- The quantity of some trades together. -/
def tradedQty (trades : List Trade) : Int := (trades.map fun trade => trade.quantity.toInt).sum

/-- Refused as a whole, or filled as a whole. -/
def AllOrNothing (engine : MatchingEngine) (cmd : AddOrder) (next : MatchingEngine) (outcome : Outcome) : Prop :=
  Killed engine cmd next outcome ∨ tradedQty outcome.trades = cmd.quantity.toInt

/-- The orders the incoming one may trade with under its self-trade mode: all
of them, the others' ones, or those before its participant's first own one. -/
def tradeable (cmd : AddOrder) (queue : List Node) : List Node :=
  match cmd.stp with
  | .none => queue
  | .cancelPassive => queue.filter fun order => order.participantId ≠ cmd.participantId
  | .cancelAggressor | .cancelBoth => queue.takeWhile fun order => order.participantId ≠ cmd.participantId

namespace FillOrKill
open EngineSteps EngineInvariant VolumeLedger OnePass
variable {engine next : MatchingEngine} {cmd : AddOrder}

theorem tradeable_own {order : Node} {rest : List Node} (own : order.participantId = cmd.participantId)
    (mode : cmd.stp ≠ .none) :
    tradeable cmd (order :: rest) = if cmd.stp = .cancelPassive then tradeable cmd rest else [] := by
  cases stp : cmd.stp with
  | none => exact absurd stp mode
  | cancelPassive => simp [tradeable, stp, own]
  | cancelAggressor => simp [tradeable, stp, own]
  | cancelBoth => simp [tradeable, stp, own]

theorem tradeable_other {order : Node} {rest : List Node}
    (other : ¬ (order.participantId = cmd.participantId ∧ cmd.stp ≠ .none)) :
    tradeable cmd (order :: rest) = order :: tradeable cmd rest := by
  cases stp : cmd.stp with
  | none => simp [tradeable, stp]
  | cancelPassive => simp_all [tradeable]
  | cancelAggressor => simp_all [tradeable]
  | cancelBoth => simp_all [tradeable]

theorem tradeable_sublist (cmd : AddOrder) (queue : List Node) : (tradeable cmd queue).Sublist queue := by
  cases stp : cmd.stp with
  | none => simp [tradeable, stp]
  | cancelPassive => simp [tradeable, stp]
  | cancelAggressor => simpa [tradeable, stp] using List.takeWhile_sublist _
  | cancelBoth => simpa [tradeable, stp] using List.takeWhile_sublist _

theorem mem_of_tradeable {order : Node} {queue : List Node} (member : order ∈ tradeable cmd queue) :
    order ∈ queue :=
  (tradeable_sublist cmd queue).subset member

theorem inReach_positive (wf : WellFormed engine) (cmd : AddOrder) :
    ∀ order ∈ inReach cmd (engine.resting cmd.symbol (opposite cmd.side)), 0 < order.remaining := by
  intro order member
  exact (PriceLevels.level_of_mem_queue (wf.sides _ _) (List.takeWhile_subset _ member)).1.remaining

@[simp] theorem tradedQty_nil : tradedQty [] = 0 := rfl

@[simp] theorem tradedQty_cons (trade : Trade) (trades : List Trade) :
    tradedQty (trade :: trades) = trade.quantity.toInt + tradedQty trades := by
  simp [tradedQty]

/-- Within the limit a walk trades its quantity, or all it may trade with if
that is less. -/
theorem walk_trades {remaining : Int64} {queue : List Node}
    (open_ : ∀ order ∈ queue, priceStops cmd order.priceTicks = false)
    (positive : ∀ order ∈ queue, 0 < order.remaining) (nonneg : 0 ≤ remaining) :
    tradedQty ((walk cmd remaining queue).steps.filterMap (Step.trade cmd)) =
      min remaining.toInt (volume (tradeable cmd queue)) := by
  induction queue generalizing remaining with
  | nil =>
    have none_ : tradeable cmd [] = [] := by cases stp : cmd.stp <;> simp [tradeable, stp]
    have low := Int64.le_iff_toInt_le.mp nonneg
    simpa [walk, none_] using low
  | cons passive rest ih =>
    have openRest := fun order member => open_ order (List.mem_cons_of_mem passive member)
    have positiveRest := fun order member => positive order (List.mem_cons_of_mem passive member)
    have here := positive passive (by simp)
    have gain := Int64.lt_iff_toInt_lt.mp here
    have low := Int64.le_iff_toInt_le.mp nonneg
    have rest_nonneg : 0 ≤ volume (tradeable cmd rest) :=
      volume_nonneg fun order member => positiveRest order (mem_of_tradeable member)
    have all_nonneg : 0 ≤ volume (tradeable cmd (passive :: rest)) :=
      volume_nonneg fun order member => positive order (mem_of_tradeable member)
    rw [Int64.toInt_zero] at gain low
    by_cases done : remaining ≤ 0
    · rw [MatchWalk.walk_done cmd done, Int64.le_antisymm done nonneg, Int64.toInt_zero, min_eq_left all_nonneg]
      rfl
    · have started : ¬ (remaining ≤ 0 ∨ priceStops cmd passive.priceTicks = true) := by
        simp [done, open_ passive (by simp)]
      rw [walk, if_neg started]
      by_cases own : passive.participantId = cmd.participantId ∧ cmd.stp ≠ .none
      · rw [if_pos own, tradeable_own own.1 own.2]
        cases mode : cmd.stp with
        | none => exact absurd mode own.2
        | cancelPassive =>
          simpa [Walk.after, Step.trade, List.filterMap_cons] using ih openRest positiveRest nonneg
        | cancelAggressor => simpa [Step.trade, List.filterMap_cons] using low
        | cancelBoth => simpa [Step.trade, List.filterMap_cons] using low
      · rw [if_neg own, tradeable_other own, volume_cons]
        by_cases partly : remaining < passive.remaining
        · rw [if_pos partly]
          have short := Int64.lt_iff_toInt_lt.mp partly
          rw [min_eq_left (by omega)]
          simp [Step.trade, tradeOf]
        · have whole := not_lt.mp partly
          have later := ih openRest positiveRest (sub_bounds here whole).1
          rw [toInt_sub_of_le here whole] at later
          rw [if_neg partly]
          simp only [Walk.after, Step.trade, List.filterMap_cons, tradedQty_cons, tradeOf, later]
          omega

/-- What an accepted add trades in all. -/
theorem accepted_trades (wf : WellFormed engine) (accepted : ¬ engine.refuses cmd) (nonneg : 0 ≤ cmd.quantity) :
    ∃ next outcome, engine.add cmd = .ok (next, outcome) ∧
      (∃ first others, outcome.events = first :: others ∧ first.type = .accepted) ∧
      tradedQty outcome.trades = min cmd.quantity.toInt
        (volume (tradeable cmd (inReach cmd (engine.resting cmd.symbol (opposite cmd.side))))) := by
  obtain ⟨mid, -, -, ran⟩ := add_accepted wf accepted
  refine ⟨_, _, ran, ⟨_, _, rfl, rfl⟩, ?_⟩
  rw [MatchingEngine.walkOf, walk_inReach (queue_meets_limit_once wf cmd)]
  exact walk_trades (inReach_open cmd _) (inReach_positive wf cmd) nonneg

/-- An accepted order was not killed. -/
theorem not_killed {outcome : Outcome} {first : ExecEvent} {others : List ExecEvent}
    (events : outcome.events = first :: others) (accepted : first.type = .accepted) :
    ¬ Killed engine cmd next outcome := by
  intro killed
  have shape := killed.events
  rw [events, List.map_cons, List.cons_eq_cons] at shape
  simp [accepted] at shape

theorem refused_killed (refused : engine.refuses cmd) :
    ∃ next outcome, engine.add cmd = .ok (next, outcome) ∧ Killed engine cmd next outcome :=
  ⟨_, _, add_refused refused, rfl, rfl, fun symbol side => levels_open engine cmd.symbol symbol side, rfl⟩

/-- In every reachable state an order, fill-or-kill or not, is refused as a
whole or filled as a whole exactly when the scan refuses it or the orders it
may trade with within its limit cover its quantity. -/
theorem all_or_nothing_iff (reachable : Reachable engine) (cmd : AddOrder) (positive : 0 < cmd.quantity) :
    ∃ next outcome, engine.add cmd = .ok (next, outcome) ∧
      (AllOrNothing engine cmd next outcome ↔ engine.refuses cmd ∨
        cmd.quantity.toInt ≤
          volume (tradeable cmd (inReach cmd (engine.resting cmd.symbol (opposite cmd.side))))) := by
  by_cases refused : engine.refuses cmd
  · obtain ⟨next, outcome, ran, killed⟩ := refused_killed refused
    exact ⟨next, outcome, ran, iff_of_true (Or.inl killed) (Or.inl refused)⟩
  · obtain ⟨next, outcome, ran, ⟨first, others, events, kind⟩, traded⟩ :=
      accepted_trades (reachable_wellFormed reachable) refused positive.le
    refine ⟨next, outcome, ran, ?_⟩
    rw [AllOrNothing, traded, or_iff_right (not_killed events kind), or_iff_right refused]
    exact min_eq_left_iff

/-- A fill-or-kill order at the price of an ask that its participant may own. -/
def takeAll (participant : Bytes) : AddOrder :=
  { symbol := ascii "S", orderId := 2, participantId := participant, priceTicks := 100, quantity := 5,
    timeInForce := .fok, stp := .cancelPassive }

def oneAsk : List Command :=
  [.add { symbol := ascii "S", orderId := 1, participantId := ascii "A", side := .sell, priceTicks := 100,
          quantity := 5 }]

theorem take_all_of_another_iff :
    ∃ next outcome, (engineAfter oneAsk).add (takeAll (ascii "B")) = .ok (next, outcome) ∧
      (AllOrNothing (engineAfter oneAsk) (takeAll (ascii "B")) next outcome ↔
        (engineAfter oneAsk).refuses (takeAll (ascii "B")) ∨ (5 : Int64).toInt ≤
          volume (tradeable (takeAll (ascii "B")) (inReach (takeAll (ascii "B"))
            ((engineAfter oneAsk).resting (ascii "S") .sell)))) :=
  all_or_nothing_iff (reachable_engineAfter oneAsk) (takeAll (ascii "B")) (by decide)

/-- Facing its own ask only, the order cancels it, trades nothing and vanishes. -/
theorem fill_or_kill_vanishes :
    ¬ ∀ engine, Reachable engine → ∀ cmd : AddOrder, cmd.timeInForce = .fok → 0 < cmd.quantity →
      ∀ next outcome, engine.add cmd = .ok (next, outcome) → AllOrNothing engine cmd next outcome := by
  intro always
  have reachable := reachable_engineAfter oneAsk
  obtain ⟨next, outcome, ran, ⟨first, others, events, kind⟩, traded⟩ :=
    accepted_trades (reachable_wellFormed reachable)
      (show ¬ (engineAfter oneAsk).refuses (takeAll (ascii "A")) by decide)
      (by decide)
  rcases always _ reachable (takeAll (ascii "A")) rfl (by decide) next outcome ran with killed | filled
  · exact not_killed events kind killed
  · rw [traded] at filled
    exact absurd filled (by decide)

end FillOrKill
end Exchange
