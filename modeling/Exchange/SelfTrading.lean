import Exchange.EngineInvariant

/-! Self-trade prevention. An order whose mode is not `NONE` never fills
against its own participant. A replace has no mode to carry and its new order
is submitted with `NONE`, so it is the only command that can trade a
participant with itself. -/
namespace Exchange.SelfTrading
open EngineSteps EngineInvariant

/-- Buyer and seller are the same participant. -/
def SelfTrade (trade : Trade) : Prop := trade.buyerParticipantId = trade.sellerParticipantId

/-- The trade of a replace that met a resting order of the participant whose
order it replaces, which is the participant of the trade. -/
def OwnCross (engine : MatchingEngine) (command : Command) (trade : Trade) : Prop :=
  ∃ cmd loc order passive, command = .replace cmd ∧ engine.index.lookup cmd.orderId = some loc ∧
    engine.deref loc = .ok order ∧ passive ∈ engine.resting cmd.symbol (opposite loc.side) ∧
    passive.participantId = order.participantId ∧ trade.passiveOrderId = passive.orderId ∧
    trade.aggressiveOrderId = cmd.newOrderId ∧ trade.buyerParticipantId = order.participantId ∧
    trade.sellerParticipantId = order.participantId

/-- Whatever the command trades, it is not a self-trade unless a replace crosses
its own participant. -/
def Prevents (engine : MatchingEngine) (command : Command) : Prop :=
  ∀ next outcome, engine.apply command = .ok (next, outcome) →
    ∀ trade ∈ outcome.trades, SelfTrade trade → OwnCross engine command trade

/-- An add carries a mode other than `NONE`. -/
def HasMode : Command → Prop
  | .add cmd => cmd.stp ≠ .none
  | .cancel _ => True
  | .replace _ => True

instance : ∀ command, Decidable (HasMode command)
  | .add _ => inferInstanceAs (Decidable (_ ≠ _))
  | .cancel _ => inferInstanceAs (Decidable True)
  | .replace _ => inferInstanceAs (Decidable True)

variable {engine next : MatchingEngine} {cmd : AddOrder} {outcome : Outcome} {trade : Trade}

theorem selfTrade_tradeOf (cmd : AddOrder) (passive : Node) (qty : Int64) :
    SelfTrade (tradeOf cmd passive qty) ↔ passive.participantId = cmd.participantId := by
  cases own : cmd.side
  · simp [SelfTrade, tradeOf, own, eq_comm]
  · simp [SelfTrade, tradeOf, own]

/-- Both sides of a self-trade are the participant whose order fills. -/
theorem participants_of_own (qty : Int64) {passive : Node} (own : passive.participantId = cmd.participantId) :
    (tradeOf cmd passive qty).buyerParticipantId = cmd.participantId ∧
      (tradeOf cmd passive qty).sellerParticipantId = cmd.participantId := by
  cases side : cmd.side with
  | buy => exact ⟨by simp [tradeOf, side], by simp [tradeOf, side, own]⟩
  | sell => exact ⟨by simp [tradeOf, side, own], by simp [tradeOf, side]⟩

/-- A walk with a mode fills against other participants only. -/
theorem walk_fills_others (mode : cmd.stp ≠ .none) {remaining qty : Int64} {queue : List Node} {passive : Node}
    (taken : Step.fill passive qty ∈ (walk cmd remaining queue).steps) :
    passive.participantId ≠ cmd.participantId := by
  induction queue generalizing remaining with
  | nil => simp [walk] at taken
  | cons first rest ih =>
    simp only [walk] at taken
    split at taken
    · simp at taken
    · split at taken
      · -- An own order is cancelled or stops the walk; only the passive mode goes on.
        split at taken
        · simp at taken
        · simp at taken
        · exact ih (by simpa [Walk.after] using taken)
      · rename_i other
        have notOwn : first.participantId ≠ cmd.participantId := fun own => other ⟨own, mode⟩
        split at taken
        · simp only [List.mem_singleton, Step.fill.injEq] at taken
          rw [taken.1]
          exact notOwn
        · simp only [Walk.after, List.mem_cons, Step.fill.injEq] at taken
          rcases taken with ⟨rfl, -⟩ | later
          · exact notOwn
          · exact ih later

/-- Every trade of an add is a fill of its walk. -/
theorem trade_of_add (wf : WellFormed engine) (ran : engine.add cmd = .ok (next, outcome))
    (member : trade ∈ outcome.trades) :
    ∃ passive qty, Step.fill passive qty ∈ (engine.walkOf cmd).steps ∧ trade = tradeOf cmd passive qty := by
  cases added_of_ran wf ran with
  | refused refuses =>
    cases member
  | accepted accepts mid matched =>
    obtain ⟨step, taken, made⟩ := List.mem_filterMap.mp member
    cases step with
    | fill passive qty =>
      simp only [Step.trade, Option.some.injEq] at made
      exact ⟨passive, qty, taken, made.symm⟩
    | cancelPassive passive => cases made
    | cancelAggressor remaining => cases made

theorem add_prevents (wf : WellFormed engine) (mode : cmd.stp ≠ .none) : Prevents engine (.add cmd) := by
  intro next outcome ran trade member own
  obtain ⟨passive, qty, taken, rfl⟩ := trade_of_add wf ran member
  exact absurd ((selfTrade_tradeOf cmd passive qty).mp own) (walk_fills_others mode taken)

theorem cancel_prevents (engine : MatchingEngine) (cmd : CancelOrder) : Prevents engine (.cancel cmd) := by
  intro next outcome ran trade member
  obtain ⟨_, -, done⟩ := Runs.bind_ok_iff.mp ran
  cases done
  cases member

theorem replace_prevents (wf : WellFormed engine) (cmd : ReplaceOrder) : Prevents engine (.replace cmd) := by
  intro next outcome ran trade member own
  cases applied_of_ran wf ran with
  | replaceUnknown _ missing => cases member
  | replaceKnown _ loc order mid answer entry taken added =>
    obtain ⟨passive, qty, filled, rfl⟩ := trade_of_add taken.wellFormed added member
    have met := MatchWalk.walk_acts_on_queue filled rfl
    have same := (selfTrade_tradeOf _ passive qty).mp own
    obtain ⟨buyer, seller⟩ := participants_of_own qty same
    exact ⟨cmd, loc, order, passive, rfl, entry, taken.reached, mem_removed taken.removed met, same, rfl, rfl,
      buyer, seller⟩

theorem apply_prevents (wf : WellFormed engine) {command : Command} (mode : HasMode command) :
    Prevents engine command := by
  cases command with
  | add cmd => exact add_prevents wf mode
  | cancel cmd => exact cancel_prevents engine cmd
  | replace cmd => exact replace_prevents wf cmd

/-- In every run whose adds all carry a mode, no add and no cancel returns a
self-trade, and a replace does only where it crosses its own participant. -/
theorem self_trades_are_own_crosses (commands : List Command) (modes : ∀ command ∈ commands, HasMode command) :
    (∃ engine outcomes, run MatchingEngine.apply {} commands = .ok (engine, outcomes)) ∧
      Meets MatchingEngine.apply Prevents {} commands := by
  obtain ⟨engine, outcomes, ran, -⟩ := run_wellFormed commands
  refine ⟨⟨engine, outcomes, ran⟩, ?_⟩
  exact Runs.meets_of_invariant (fun _ command => HasMode command) WellFormed
    (fun _ command wf mode => ⟨apply_prevents wf mode, apply_wellFormed wf command⟩) wellFormed_empty
    (Runs.meets_of_mem modes)

/-- Two orders of one participant, the bid then replaced to the price of the ask. -/
def crossedReplace : List Command :=
  [.add { symbol := ascii "S", orderId := 1, participantId := ascii "A", side := .sell, priceTicks := 100,
          quantity := 5, stp := .cancelBoth },
    .add { symbol := ascii "S", orderId := 2, participantId := ascii "A", priceTicks := 90, quantity := 5,
           stp := .cancelBoth },
    .replace { symbol := ascii "S", orderId := 2, newOrderId := 3, newPriceTicks := 100, newQuantity := 5 }]

theorem crossed_replace_is_an_own_cross :
    (∃ engine outcomes, run MatchingEngine.apply {} crossedReplace = .ok (engine, outcomes)) ∧
      Meets MatchingEngine.apply Prevents {} crossedReplace :=
  self_trades_are_own_crosses crossedReplace (by decide)

/-- Modes on every add do not keep a replace from trading with its own participant. -/
theorem replace_trades_with_itself :
    ¬ ∀ commands engine outcomes, (∀ command ∈ commands, HasMode command) →
      run MatchingEngine.apply {} commands = .ok (engine, outcomes) →
      ∀ outcome ∈ outcomes, ∀ trade ∈ outcome.trades, ¬ SelfTrade trade := by
  intro always
  obtain ⟨engine, outcomes, ran, -⟩ := run_wellFormed crossedReplace
  have traded : (run MatchingEngine.apply {} crossedReplace).map
      (fun result => result.2.map fun outcome => outcome.trades.map fun trade =>
        (trade.buyerParticipantId, trade.sellerParticipantId)) =
      .ok [[], [], [(ascii "A", ascii "A")]] := by decide
  rw [ran] at traded
  have shape : (outcomes.map fun outcome => outcome.trades.map fun trade =>
      (trade.buyerParticipantId, trade.sellerParticipantId)) = _ := Except.ok.inj traded
  have member : [(ascii "A", ascii "A")] ∈ outcomes.map fun outcome => outcome.trades.map fun trade =>
      (trade.buyerParticipantId, trade.sellerParticipantId) := by
    rw [shape]
    simp
  obtain ⟨outcome, held, pairs⟩ := List.mem_map.mp member
  obtain ⟨trade, rest, trades, pair, -⟩ := List.map_eq_cons_iff.mp pairs
  refine always crossedReplace engine outcomes (by decide) ran outcome held trade (by simp [trades]) ?_
  rw [SelfTrade, (Prod.mk.inj pair).1, (Prod.mk.inj pair).2]

end Exchange.SelfTrading
