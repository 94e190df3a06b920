import Exchange.EngineInvariant

/-! Which books a command can touch. An add works on the book of its own
symbol only. Cancel and replace look their order up by id alone, so they stay
on their symbol exactly when the index locates that id there; otherwise they
take an order out of another symbol's book. -/
namespace Exchange.SymbolIsolation
open EngineSteps EngineInvariant

/-- The order ids a payload names. -/
def orderIds (payload : Payload) : List Int64 :=
  payload.filterMap fun
    | (.orderId, .int orderId) => some orderId
    | (.aggressiveOrderId, .int orderId) => some orderId
    | (.passiveOrderId, .int orderId) => some orderId
    | _ => none

/-- The id of the order a command submits, if it submits one. -/
def introduces : Command → Option Int64
  | .add cmd => some cmd.orderId
  | .cancel _ => none
  | .replace cmd => some cmd.newOrderId

/-- The id of the command's own order, or of an order resting on its symbol. -/
def Concerned (engine : MatchingEngine) (command : Command) (orderId : Int64) : Prop :=
  introduces command = some orderId ∨
    ∃ side, ∃ order ∈ engine.resting command.symbol side, order.orderId = orderId

/-- The command leaves every other symbol's book as it is, and everything it
reports is about its own symbol. A rejection is about no order. -/
def Isolated (engine : MatchingEngine) (command : Command) : Prop :=
  ∀ next outcome, engine.apply command = .ok (next, outcome) →
    (∀ other, other ≠ command.symbol → next.books.lookup other = engine.books.lookup other) ∧
    (∀ event ∈ outcome.events, event.symbol = command.symbol ∧
      (event.type ≠ .rejected → ∀ orderId ∈ orderIds event.payload, Concerned engine command orderId)) ∧
    (∀ trade ∈ outcome.trades, trade.symbol = command.symbol ∧
      ∀ orderId ∈ [trade.passiveOrderId, trade.aggressiveOrderId, trade.buyerOrderId, trade.sellerOrderId],
        Concerned engine command orderId)

/-- The id a cancel or replace names is not located on another symbol. -/
def OnOwnSymbol (engine : MatchingEngine) : Command → Prop
  | .add _ => True
  | .cancel cmd => ∀ loc, engine.index.lookup cmd.orderId = some loc → loc.symbol = cmd.symbol
  | .replace cmd => ∀ loc, engine.index.lookup cmd.orderId = some loc → loc.symbol = cmd.symbol

variable {engine next : MatchingEngine} {command : Command} {cmd : AddOrder} {outcome : Outcome}

/-- What a step of an add's walk reports names the add or an order of the
queue walked. -/
theorem step_report_names {step : Step} (taken : step ∈ (engine.walkOf cmd).steps) {orderId : Int64}
    (named : orderId ∈ orderIds (step.report cmd).2) :
    orderId = cmd.orderId ∨
      ∃ order ∈ engine.resting cmd.symbol (opposite cmd.side), order.orderId = orderId := by
  cases step with
  | fill passive qty =>
    have inside := MatchWalk.walk_acts_on_queue taken rfl
    simp only [Step.report, orderIds, List.filterMap_cons, List.filterMap_nil, List.mem_cons,
      List.not_mem_nil, or_false] at named
    exact named.imp_right fun same => ⟨passive, inside, same.symm⟩
  | cancelPassive passive =>
    have inside := MatchWalk.walk_acts_on_queue taken rfl
    simp only [Step.report, orderIds, List.filterMap_cons, List.filterMap_nil,
      List.mem_singleton] at named
    exact Or.inr ⟨passive, inside, named.symm⟩
  | cancelAggressor remaining =>
    exact Or.inl (by simpa [Step.report, orderIds] using named)

/-- The trade of a step is on the add's symbol, between the add and an order of
the queue walked. -/
theorem step_trade_names {step : Step} {trade : Trade} (taken : step ∈ (engine.walkOf cmd).steps)
    (made : step.trade cmd = some trade) :
    trade.symbol = cmd.symbol ∧
      ∀ orderId ∈ [trade.passiveOrderId, trade.aggressiveOrderId, trade.buyerOrderId, trade.sellerOrderId],
        orderId = cmd.orderId ∨
          ∃ order ∈ engine.resting cmd.symbol (opposite cmd.side), order.orderId = orderId := by
  cases step with
  | fill passive qty =>
    have inside := MatchWalk.walk_acts_on_queue taken rfl
    simp only [Step.trade, Option.some.injEq] at made
    subst made
    refine ⟨rfl, fun orderId named => ?_⟩
    simp only [tradeOf, List.mem_cons, List.not_mem_nil, or_false] at named
    have own : orderId = cmd.orderId ∨ orderId = passive.orderId := by
      split at named <;> tauto
    exact own.imp_right fun same => ⟨passive, inside, same.symm⟩
  | cancelPassive passive => cases made
  | cancelAggressor remaining => cases made

/-- The report that closes an add names the add alone. -/
theorem closing_names {remaining : Int64} {report : EventType × Payload}
    (closed : report ∈ closing cmd remaining) {orderId : Int64} (named : orderId ∈ orderIds report.2) :
    orderId = cmd.orderId := by
  unfold closing at closed
  split at closed
  · split at closed
    all_goals simp only [List.mem_singleton, List.not_mem_nil] at closed
    all_goals
      subst closed
      simpa [orderIds] using named
  · cases closed

/-- An add names itself and orders of the queue it walks, and leaves every
other symbol's book alone. -/
theorem add_stays_on_symbol (wf : WellFormed engine) (ran : engine.add cmd = .ok (next, outcome)) :
    (∀ other, other ≠ cmd.symbol → next.books.lookup other = engine.books.lookup other) ∧
    (∀ event ∈ outcome.events, event.symbol = cmd.symbol ∧ ∀ orderId ∈ orderIds event.payload,
      orderId = cmd.orderId ∨
        ∃ order ∈ engine.resting cmd.symbol (opposite cmd.side), order.orderId = orderId) ∧
    (∀ trade ∈ outcome.trades, trade.symbol = cmd.symbol ∧
      ∀ orderId ∈ [trade.passiveOrderId, trade.aggressiveOrderId, trade.buyerOrderId, trade.sellerOrderId],
        orderId = cmd.orderId ∨
          ∃ order ∈ engine.resting cmd.symbol (opposite cmd.side), order.orderId = orderId) := by
  cases added_of_ran wf ran with
  | refused refuses =>
    refine ⟨fun other different => ?_, fun event member => ?_, by simp⟩
    · simp [MatchingEngine.setBook, AList.lookup_insert_ne different]
    · obtain ⟨symbol, report⟩ := mem_numbered member
      have shape : event.payload = [(.orderId, .int cmd.orderId),
          (.reason, .str (ascii "FOK_UNFILLABLE"))] := by
        simp only [List.mem_singleton, Prod.mk.injEq] at report
        exact report.2
      refine ⟨symbol, fun orderId named => Or.inl ?_⟩
      simpa [shape, orderIds] using named
  | accepted accepts mid matched =>
    refine ⟨fun other different => ?_, fun event member => ?_, fun trade member => ?_⟩
    · rw [← matched.books other different]
      unfold settled
      split
      · simp [MatchingEngine.restOrder, MatchingEngine.setBook, AList.lookup_insert_ne different]
      · rfl
    · obtain ⟨symbol, report⟩ := mem_numbered member
      refine ⟨symbol, fun orderId named => ?_⟩
      simp only [addReports, List.mem_cons, List.mem_append, List.mem_map] at report
      rcases report with accepted | ⟨step, taken, reported⟩ | closed
      · obtain ⟨-, payload⟩ := Prod.mk.inj accepted
        rw [payload] at named
        exact Or.inl (by simpa [orderIds] using named)
      · refine step_report_names taken ?_
        rw [reported]
        exact named
      · exact Or.inl (closing_names closed named)
    · obtain ⟨step, taken, made⟩ := List.mem_filterMap.mp member
      exact step_trade_names taken made

theorem add_isolated (wf : WellFormed engine) (cmd : AddOrder) : Isolated engine (.add cmd) := by
  intro next outcome ran
  obtain ⟨books, events, trades⟩ := add_stays_on_symbol wf ran
  have concerned : ∀ orderId, (orderId = cmd.orderId ∨
      ∃ order ∈ engine.resting cmd.symbol (opposite cmd.side), order.orderId = orderId) →
      Concerned engine (.add cmd) orderId := by
    intro orderId named
    rcases named with rfl | held
    · exact Or.inl rfl
    · exact Or.inr ⟨opposite cmd.side, held⟩
  refine ⟨books, fun event member => ?_, fun trade member => ?_⟩
  · exact ⟨(events event member).1,
      fun _ orderId named => concerned orderId ((events event member).2 orderId named)⟩
  · exact ⟨(trades trade member).1, fun orderId named => concerned orderId ((trades trade member).2 orderId named)⟩

/-- Taking an order out of another symbol's book shows there. -/
theorem taken_out_elsewhere {orderId : Int64} {loc : Location} {order : Node}
    (taken : TakenOut engine orderId loc order next) :
    next.books.lookup loc.symbol ≠ engine.books.lookup loc.symbol := by
  intro same
  obtain ⟨ahead, behind, before, after⟩ := taken.removed.queue
  rw [taken.symbol, taken.side] at before after
  have unchanged : next.resting loc.symbol loc.side = engine.resting loc.symbol loc.side := by
    simp [MatchingEngine.resting, MatchingEngine.levels, MatchingEngine.bookFor, same]
  have count := congrArg List.length (before.symm.trans (unchanged.symm.trans after))
  simp at count

theorem rejected_isolated {symbol : Bytes} {sequence : Int} {payload : Payload} {event : ExecEvent}
    (member : event ∈ numbered symbol sequence [(.rejected, payload)]) :
    event.symbol = symbol ∧ event.type = .rejected := by
  obtain ⟨same, report⟩ := mem_numbered member
  simp only [List.mem_singleton, Prod.mk.injEq] at report
  exact ⟨same, report.1⟩

/-- A cancel's report names the order taken out, which rests where the index says. -/
theorem cancelled_concerns {symbol : Bytes} {sequence : Int} {orderId : Int64} {loc : Location}
    {order : Node} {event : ExecEvent} (taken : TakenOut engine orderId loc order next)
    (member : event ∈ numbered symbol sequence
      [(.cancelled, [(.orderId, .int orderId), (.remaining, .int order.remaining)])]) :
    event.symbol = symbol ∧ ∀ named ∈ orderIds event.payload,
      ∃ held ∈ engine.resting loc.symbol loc.side, held.orderId = named := by
  obtain ⟨same, report⟩ := mem_numbered member
  simp only [List.mem_singleton, Prod.mk.injEq] at report
  refine ⟨same, fun named mentioned => ?_⟩
  rw [report.2] at mentioned
  simp only [orderIds, List.filterMap_cons, List.filterMap_nil, List.mem_singleton] at mentioned
  exact ⟨order, taken.member, taken.named.trans mentioned.symm⟩

theorem cancel_isolated_iff (wf : WellFormed engine) (cmd : CancelOrder) :
    Isolated engine (.cancel cmd) ↔ OnOwnSymbol engine (.cancel cmd) := by
  cases entry : engine.index.lookup cmd.orderId with
  | none =>
    refine iff_of_true ?_ (by simp [OnOwnSymbol, entry])
    intro next outcome ran
    rw [apply_cancel (cancel_unknown entry)] at ran
    cases ran
    refine ⟨fun _ _ => rfl, fun event member => ?_, by simp⟩
    obtain ⟨same, rejected⟩ := rejected_isolated member
    exact ⟨same, fun other => absurd rejected other⟩
  | some loc =>
    obtain ⟨order, next, taken, ran⟩ := cancel_known wf cmd entry
    constructor
    · intro isolated found located
      rw [entry] at located
      cases located
      by_contra elsewhere
      exact taken_out_elsewhere taken ((isolated next _ (apply_cancel ran)).1 _ elsewhere)
    · intro own next' outcome ran'
      rw [apply_cancel ran] at ran'
      cases ran'
      have here : loc.symbol = cmd.symbol := own loc entry
      refine ⟨fun other different => taken.books other (by rw [here]; exact different),
        fun event member => ?_, by simp⟩
      obtain ⟨same, held⟩ := cancelled_concerns taken member
      refine ⟨same, fun _ orderId named => Or.inr ⟨loc.side, ?_⟩⟩
      rw [show (Command.cancel cmd).symbol = loc.symbol from here.symm]
      exact held orderId named

theorem replace_isolated_iff (wf : WellFormed engine) (cmd : ReplaceOrder) :
    Isolated engine (.replace cmd) ↔ OnOwnSymbol engine (.replace cmd) := by
  cases entry : engine.index.lookup cmd.orderId with
  | none =>
    refine iff_of_true ?_ (by simp [OnOwnSymbol, entry])
    intro next outcome ran
    rw [MatchingEngine.apply, replace_unknown entry] at ran
    cases ran
    refine ⟨fun _ _ => rfl, fun event member => ?_, by simp⟩
    obtain ⟨same, rejected⟩ := rejected_isolated member
    exact ⟨same, fun other => absurd rejected other⟩
  | some loc =>
    obtain ⟨order, mid, taken, cancelled⟩ :=
      cancel_known wf ⟨cmd.symbol, cmd.orderId⟩ entry
    obtain ⟨next, outcome, added, -⟩ := add_wellFormed taken.wellFormed
      (MatchingEngine.replacementOrder cmd order.participantId loc.side)
    have ran := replace_known entry taken.reached cancelled added
    obtain ⟨books, events, trades⟩ := add_stays_on_symbol taken.wellFormed added
    constructor
    · intro isolated found located
      rw [entry] at located
      cases located
      by_contra elsewhere
      have kept := (isolated next _ ran).1 _ elsewhere
      rw [books loc.symbol elsewhere] at kept
      exact taken_out_elsewhere taken kept
    · intro own next' outcome' ran'
      rw [MatchingEngine.apply, ran] at ran'
      cases ran'
      have here : loc.symbol = cmd.symbol := own loc entry
      have concerned : ∀ orderId, (orderId = cmd.newOrderId ∨
          ∃ order ∈ mid.resting cmd.symbol (opposite loc.side), order.orderId = orderId) →
          Concerned engine (.replace cmd) orderId := by
        intro orderId named
        rcases named with rfl | ⟨held, member, same⟩
        · exact Or.inl rfl
        · exact Or.inr ⟨_, held, mem_removed taken.removed member, same⟩
      refine ⟨fun other different => ?_, fun event member => ?_, fun trade member => ?_⟩
      · rw [books other different, taken.books other (by rw [here]; exact different)]
      · rcases List.mem_append.mp member with first | second
        · obtain ⟨same, held⟩ := cancelled_concerns taken first
          refine ⟨same, fun _ orderId named => Or.inr ⟨loc.side, ?_⟩⟩
          rw [show (Command.replace cmd).symbol = loc.symbol from here.symm]
          exact held orderId named
        · obtain ⟨same, held⟩ := events event second
          exact ⟨same, fun _ orderId named => concerned orderId (held orderId named)⟩
      · obtain ⟨same, held⟩ := trades trade member
        exact ⟨same, fun orderId named => concerned orderId (held orderId named)⟩

/-- In every reachable state a command stays on its own symbol exactly when it
is an add or the id it names is not located on another symbol. -/
theorem isolated_iff_on_own_symbol (reachable : Reachable engine) (command : Command) :
    Isolated engine command ↔ OnOwnSymbol engine command := by
  have wf := reachable_wellFormed reachable
  cases command with
  | add cmd => exact iff_of_true (add_isolated wf cmd) trivial
  | cancel cmd => exact cancel_isolated_iff wf cmd
  | replace cmd => exact replace_isolated_iff wf cmd

/-- One order, resting on symbol `T`. -/
def oneOrder : List Command :=
  [.add { symbol := ascii "T", orderId := 1, participantId := ascii "A", priceTicks := 100, quantity := 5 }]

def oneOrderEngine : MatchingEngine :=
  match run MatchingEngine.apply {} oneOrder with
  | .ok (engine, _) => engine
  | .error _ => {}

private theorem oneOrder_runs :
    ∃ outcomes, run MatchingEngine.apply {} oneOrder = .ok (oneOrderEngine, outcomes) := by
  obtain ⟨engine, outcomes, ran, -⟩ := run_wellFormed oneOrder
  exact ⟨outcomes, by simp [oneOrderEngine, ran]⟩

theorem one_order_cancel_isolated : Isolated oneOrderEngine (.cancel ⟨ascii "T", 1⟩) := by
  refine (isolated_iff_on_own_symbol ⟨oneOrder, oneOrder_runs⟩ _).mpr fun loc found => ?_
  have located : oneOrderEngine.index.lookup 1 = some ⟨ascii "T", .buy, 100, 0⟩ := by decide
  rw [located] at found
  cases found
  rfl

/-- A cancel that names symbol `S` takes out the order resting on `T`. -/
theorem cancel_reaches_another_symbol :
    ¬ ∀ engine, Reachable engine → ∀ command, Isolated engine command := by
  intro always
  have isolated := always oneOrderEngine ⟨oneOrder, oneOrder_runs⟩ (.cancel ⟨ascii "S", 1⟩)
  have wf := reachable_wellFormed ⟨oneOrder, oneOrder_runs⟩
  have own := (cancel_isolated_iff wf ⟨ascii "S", 1⟩).mp isolated ⟨ascii "T", .buy, 100, 0⟩ (by decide)
  exact absurd own (by decide)

end Exchange.SymbolIsolation
