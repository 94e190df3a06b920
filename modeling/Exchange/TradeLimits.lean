import Exchange.Components
import Exchange.RiskOnBook
import Exchange.SelfTrading

/-! No order trades beyond its limit. A trade is between the order a command
brings in and an order an earlier command brought in, at the price that one was
brought in at, and every order belongs to a participant who added one. The ids
may repeat: the orders are the commands' own, not whatever an id leads to. -/
namespace Exchange.TradeLimits
open EngineSteps EngineInvariant SelfTrading

variable {engine mid next : MatchingEngine} {cmd : AddOrder} {order : Node} {outcome : Outcome} {trade : Trade}
  {command : Command} {orders : List AddOrder}

/-! ## The orders of a run -/

/-- The order a command brings in: the one it adds, or the one that takes the
place of the order it replaces. -/
def broughtBy (engine : MatchingEngine) : Command → Option AddOrder
  | .add cmd => some cmd
  | .cancel _ => none
  | .replace cmd =>
    (engine.index.lookup cmd.orderId).bind fun loc =>
      match engine.deref loc with
      | .ok order => some (MatchingEngine.replacementOrder cmd order.participantId loc.side)
      | .error _ => none

/-- The orders the commands of a run bring in. -/
def broughtIn : MatchingEngine → List Command → List AddOrder
  | _, [] => []
  | engine, command :: commands => (broughtBy engine command).toList ++
      match engine.apply command with
      | .ok (next, _) => broughtIn next commands
      | .error _ => []

theorem broughtIn_concat {commands : List Command} {outcomes : List Outcome} (command : Command)
    (ran : run MatchingEngine.apply engine commands = .ok (next, outcomes)) :
    broughtIn engine (commands ++ [command]) = broughtIn engine commands ++ (broughtBy next command).toList := by
  induction commands generalizing engine outcomes with
  | nil =>
    cases ran
    simp only [List.nil_append, broughtIn]
    cases next.apply command <;> simp
  | cons first commands ih =>
    obtain ⟨mid, outcome, later, taken, rest, -⟩ := Runs.run_cons_inv ran
    rw [List.cons_append, broughtIn, broughtIn]
    simp only [taken, ih rest, List.append_assoc]

/-! ## Resting orders -/

/-- A resting order is what is left of this one. -/
structure RestOf (source : AddOrder) (order : Node) : Prop where
  symbol : order.symbol = source.symbol
  orderId : order.orderId = source.orderId
  participant : order.participantId = source.participantId
  side : order.side = source.side
  price : order.priceTicks = source.priceTicks
  stays : source.timeInForce = .gtc
  remaining : order.remaining ≤ source.quantity

/-- Every resting order is what is left of one of these. -/
def Sourced (engine : MatchingEngine) (orders : List AddOrder) : Prop :=
  ∀ symbol side, ∀ order ∈ engine.resting symbol side, ∃ source ∈ orders, RestOf source order

theorem sourced_congr (sourced : Sourced engine orders)
    (levels : ∀ symbol side, next.levels symbol side = engine.levels symbol side) : Sourced next orders := by
  intro symbol side order member
  rw [resting_of_levels (levels symbol side)] at member
  exact sourced symbol side order member

theorem sourced_more (sourced : Sourced engine orders) (more : List AddOrder) : Sourced engine (orders ++ more) := by
  intro symbol side order member
  obtain ⟨source, inside, rest⟩ := sourced symbol side order member
  exact ⟨source, List.mem_append_left _ inside, rest⟩

theorem sourced_matched (sourced : Sourced engine orders) (matched : Matched engine cmd mid) : Sourced mid orders := by
  intro symbol side order member
  obtain ⟨original, held, left, rfl, some_⟩ := mem_matched matched member
  obtain ⟨source, inside, rest⟩ := sourced symbol side original held
  refine ⟨source, inside, rest.symbol, rest.orderId, rest.participant, rest.side, rest.price, rest.stays, ?_⟩
  rcases some_ with rfl | ⟨-, less⟩
  · exact rest.remaining
  · exact less.le.trans rest.remaining

theorem sourced_removed (sourced : Sourced engine orders) (removed : Removed engine order next) : Sourced next orders :=
  fun symbol side held member => sourced symbol side held (mem_removed removed member)

/-- No more is left than was brought in. -/
theorem walkOf_remaining_le (wf : WellFormed engine) (cmd : AddOrder) :
    (engine.walkOf cmd).remaining ≤ cmd.quantity := by
  by_cases positive : 0 ≤ cmd.quantity
  · have held := RiskOnBook.resting_positive wf cmd.symbol (opposite cmd.side)
    exact (VolumeLedger.walk_remaining_bounds cmd positive held).2
  · have untouched := MatchWalk.walk_done cmd (not_le.mp positive).le (engine.resting cmd.symbol (opposite cmd.side))
    rw [MatchingEngine.walkOf, untouched]

/-- After an add the orders are the old ones and the one it brought in. -/
theorem sourced_add (wf : WellFormed engine) (sourced : Sourced engine orders)
    (ran : engine.add cmd = .ok (next, outcome)) : Sourced next (orders ++ [cmd]) := by
  cases added_of_ran wf ran with
  | refused refuses =>
    exact sourced_more (sourced_congr sourced fun symbol side => levels_open engine cmd.symbol symbol side) _
  | accepted accepts mid matched =>
    have kept := sourced_more (sourced_matched sourced matched) [cmd]
    by_cases resting : rests cmd (engine.walkOf cmd).remaining
    · have midWf := matched_wellFormed wf matched
      have inserted := restOrder_inserted (midWf.sides cmd.symbol cmd.side) resting.1
      have shape : ∀ symbol side, (settled mid cmd (engine.walkOf cmd).remaining).levels symbol side =
          (mid.restOrder cmd (engine.walkOf cmd).remaining).levels symbol side := by
        intro symbol side
        simp only [settled, if_pos resting]
        rfl
      refine sourced_congr ?_ shape
      intro symbol side order member
      rcases (mem_inserted inserted).mp member with held | ⟨rfl, -, -⟩
      · exact kept symbol side order held
      · exact ⟨cmd, by simp, rfl, rfl, rfl, rfl, rfl, resting.2, walkOf_remaining_le wf cmd⟩
    · refine sourced_congr kept fun symbol side => ?_
      simp only [settled, if_neg resting]
      rfl

/-- One command adds the order it brings in. -/
theorem sourced_apply (wf : WellFormed engine) (sourced : Sourced engine orders)
    (ran : engine.apply command = .ok (next, outcome)) :
    Sourced next (orders ++ (broughtBy engine command).toList) := by
  cases applied_of_ran wf ran with
  | add cmd ran => exact sourced_add wf sourced ran
  | cancelUnknown cmd missing => exact sourced_congr (sourced_more sourced _) fun _ _ => rfl
  | cancelKnown cmd loc order entry taken => exact sourced_more (sourced_removed sourced taken.removed) _
  | replaceUnknown cmd missing => exact sourced_congr (sourced_more sourced _) fun _ _ => rfl
  | replaceKnown cmd loc order mid added entry taken ranAdd =>
    have brought : broughtBy engine (.replace cmd) =
        some (MatchingEngine.replacementOrder cmd order.participantId loc.side) := by
      simp only [broughtBy, entry, Option.bind_some, taken.reached]
    rw [brought]
    exact sourced_add taken.wellFormed (sourced_removed sourced taken.removed) ranAdd

/-! ## Trades -/

/-- A fill takes no more than is left on either side, within the limit. -/
theorem walk_fill {remaining qty : Int64} {queue : List Node} {passive : Node}
    (positive : ∀ order ∈ queue, 0 < order.remaining)
    (taken : Step.fill passive qty ∈ (walk cmd remaining queue).steps) :
    0 < qty ∧ qty ≤ remaining ∧ qty ≤ passive.remaining ∧ priceStops cmd passive.priceTicks = false := by
  induction queue generalizing remaining with
  | nil => simp [walk] at taken
  | cons first rest ih =>
    have held := positive first (by simp)
    have later := fun order member => positive order (List.mem_cons_of_mem first member)
    simp only [walk] at taken
    split at taken
    · simp at taken
    · rename_i going
      rw [not_or, Bool.not_eq_true, not_le] at going
      split at taken
      · split at taken
        · simp at taken
        · simp at taken
        · exact ih later (by simpa [Walk.after] using taken)
      · split at taken
        · rename_i partly
          simp only [List.mem_singleton, Step.fill.injEq] at taken
          obtain ⟨rfl, rfl⟩ := taken
          exact ⟨going.1, le_rfl, partly.le, going.2⟩
        · rename_i whole
          simp only [Walk.after, List.mem_cons, Step.fill.injEq] at taken
          rcases taken with ⟨rfl, rfl⟩ | behind
          · exact ⟨held, not_lt.mp whole, le_rfl, going.2⟩
          · obtain ⟨some_, fits, available, open_⟩ := ih later behind
            refine ⟨some_, fits.trans ?_, available, open_⟩
            exact (VolumeLedger.sub_bounds held (not_lt.mp whole)).2

/-- A trade that this order made with one that rested. -/
structure Between (trade : Trade) (aggressor passive : AddOrder) : Prop where
  symbols : trade.symbol = aggressor.symbol ∧ trade.symbol = passive.symbol
  ids : trade.aggressiveOrderId = aggressor.orderId ∧ trade.passiveOrderId = passive.orderId
  sides : passive.side = opposite aggressor.side
  rested : passive.timeInForce = .gtc
  price : trade.priceTicks = passive.priceTicks
  limit : aggressor.timeInForce ≠ .market → beyond passive.side aggressor.priceTicks trade.priceTicks = false
  quantity : 0 < trade.quantity ∧ trade.quantity ≤ aggressor.quantity ∧ trade.quantity ≤ passive.quantity
  buyer : let buyer := if aggressor.side = .buy then aggressor else passive
    trade.buyerOrderId = buyer.orderId ∧ trade.buyerParticipantId = buyer.participantId
  seller : let seller := if aggressor.side = .buy then passive else aggressor
    trade.sellerOrderId = seller.orderId ∧ trade.sellerParticipantId = seller.participantId

/-- A trade of an add is with one of the orders that rest. -/
theorem between_of_add (wf : WellFormed engine) (sourced : Sourced engine orders)
    (ran : engine.add cmd = .ok (next, outcome)) (member : trade ∈ outcome.trades) :
    ∃ passive ∈ orders, Between trade cmd passive := by
  obtain ⟨order, qty, filled, rfl⟩ := trade_of_add wf ran member
  have met := MatchWalk.walk_acts_on_queue filled rfl
  obtain ⟨some_, fits, available, open_⟩ :=
    walk_fill (RiskOnBook.resting_positive wf cmd.symbol (opposite cmd.side)) filled
  have placed := (PriceLevels.level_of_mem_queue (wf.sides _ _) met).1
  obtain ⟨passive, inside, rest⟩ := sourced cmd.symbol (opposite cmd.side) order met
  have side : passive.side = opposite cmd.side := rest.side.symm.trans placed.side
  refine ⟨passive, inside, ?_⟩
  constructor
  · exact ⟨rfl, placed.symbol.symm.trans rest.symbol⟩
  · exact ⟨rfl, rest.orderId⟩
  · exact side
  · exact rest.stays
  · exact rest.price
  · intro limited
    rw [priceStops, decide_eq_true limited, Bool.true_and] at open_
    rw [side]
    exact open_
  · exact ⟨some_, fits, available.trans rest.remaining⟩
  · by_cases buys : cmd.side = .buy <;> simp [tradeOf, buys, rest.orderId, rest.participant]
  · by_cases buys : cmd.side = .buy <;> simp [tradeOf, buys, rest.orderId, rest.participant]

/-- A trade of a command is between the order it brings in and one that rests. -/
theorem between_of_apply (wf : WellFormed engine) (sourced : Sourced engine orders)
    (ran : engine.apply command = .ok (next, outcome)) (member : trade ∈ outcome.trades) :
    ∃ aggressor ∈ broughtBy engine command, ∃ passive ∈ orders, Between trade aggressor passive := by
  cases applied_of_ran wf ran with
  | add cmd ran => exact ⟨cmd, rfl, between_of_add wf sourced ran member⟩
  | cancelUnknown cmd missing => cases member
  | cancelKnown cmd loc order entry taken => cases member
  | replaceUnknown cmd missing => cases member
  | replaceKnown cmd loc order mid added entry taken ranAdd =>
    refine ⟨_, ?_, between_of_add taken.wellFormed (sourced_removed sourced taken.removed) ranAdd member⟩
    simp only [broughtBy, entry, Option.bind_some, taken.reached, Option.mem_def]

/-! ## Owners -/

/-- Its participant added an order on its side. -/
def Owned (commands : List Command) (order : AddOrder) : Prop :=
  ∃ cmd, .add cmd ∈ commands ∧ cmd.participantId = order.participantId ∧ cmd.side = order.side

theorem owned_more {commands : List Command} {brought : AddOrder} (owned : Owned commands brought)
    (more : List Command) : Owned (commands ++ more) brought := by
  obtain ⟨cmd, member, same⟩ := owned
  exact ⟨cmd, List.mem_append_left _ member, same⟩

/-- The new order of a replace has the owner and the side of the order it
replaces, which were those of an order added before. -/
theorem owned_broughtBy {commands : List Command} (wf : WellFormed engine) (sourced : Sourced engine orders)
    (owned : ∀ brought ∈ orders, Owned commands brought) :
    ∀ brought ∈ broughtBy engine command, Owned (commands ++ [command]) brought := by
  intro brought member
  cases command with
  | add cmd =>
    cases member
    exact ⟨brought, by simp, rfl, rfl⟩
  | cancel cmd => cases member
  | replace cmd =>
    obtain ⟨loc, entry, made⟩ := Option.bind_eq_some_iff.mp member
    obtain ⟨order, reached, held, -⟩ := deref_ok wf entry
    simp only [reached, Option.some.injEq] at made
    subst made
    have placed := (PriceLevels.level_of_mem_queue (wf.sides _ _) held).1
    obtain ⟨source, inside, rest⟩ := sourced _ _ order held
    obtain ⟨first, added, participant, side⟩ := owned source inside
    exact ⟨first, List.mem_append_left _ added, participant.trans rest.participant.symm,
      side.trans (rest.side.symm.trans placed.side)⟩

/-! ## Runs -/

/-- The engine is sound, its orders come from the run, and their owners have added orders. -/
theorem run_sourced (commands : List Command) : ∃ engine outcomes,
    run MatchingEngine.apply {} commands = .ok (engine, outcomes) ∧ WellFormed engine ∧
      Sourced engine (broughtIn {} commands) ∧ ∀ brought ∈ broughtIn {} commands, Owned commands brought := by
  induction commands using List.reverseRecOn with
  | nil =>
    refine ⟨{}, [], rfl, wellFormed_empty, fun symbol side order member => ?_, by simp [broughtIn]⟩
    cases side <;> simp [MatchingEngine.resting, MatchingEngine.levels, MatchingEngine.bookFor, Book.side] at member
  | append_singleton commands command ih =>
    obtain ⟨engine, outcomes, ran, wf, sourced, owned⟩ := ih
    obtain ⟨next, outcome, taken, nextWf⟩ := apply_wellFormed wf command
    refine ⟨next, _, Runs.run_concat ran taken, nextWf, ?_⟩
    rw [broughtIn_concat command ran]
    refine ⟨sourced_apply wf sourced taken, fun brought member => ?_⟩
    rcases List.mem_append.mp member with before | now
    · exact owned_more (owned brought before) [command]
    · exact owned_broughtBy wf sourced owned brought (Option.mem_toList.mp now)

/-- Whatever the commands, with ids repeated or not: a trade is between the
order of the command that makes it and an order an earlier command brought in
on the other side, at the price of the earlier one, which is within the limit of
the later one, and for no more than either quantity; and both orders belong to
participants who added an order on that side. -/
theorem trades_keep_both_limits (before : List Command) (command : Command) :
    ∃ engine outcomes next outcome, run MatchingEngine.apply {} before = .ok (engine, outcomes) ∧
      engine.apply command = .ok (next, outcome) ∧ ∀ trade ∈ outcome.trades,
        ∃ aggressor ∈ broughtBy engine command, ∃ passive ∈ broughtIn {} before,
          Between trade aggressor passive ∧ Owned before passive ∧ Owned (before ++ [command]) aggressor := by
  obtain ⟨engine, outcomes, ran, wf, sourced, owned⟩ := run_sourced before
  obtain ⟨next, outcome, taken, -⟩ := apply_wellFormed wf command
  refine ⟨engine, outcomes, next, outcome, ran, taken, fun trade member => ?_⟩
  obtain ⟨aggressor, brought, passive, inside, between⟩ := between_of_apply wf sourced taken member
  exact ⟨aggressor, brought, passive, inside, between, owned passive inside,
    owned_broughtBy wf sourced owned aggressor brought⟩

end Exchange.TradeLimits
