import Exchange.FillOrKill

/-! The liquidity scan and what follows from its answer. Without self-trade
prevention the scan counts exactly what the matching loop would take, so a
fill-or-kill order is accepted when its immediate-or-cancel twin would fill,
and the two then do the same. A replace asks the scan only after its cancel:
when the scan refuses, the original order is already gone. -/
namespace Exchange

/-- The call returned an event of this kind. -/
def Outcome.reports (outcome : Outcome) (type : EventType) : Prop :=
  ∃ event ∈ outcome.events, event.type = type

/-- The resting orders and the index are the same. -/
structure SameOrders (engine next : MatchingEngine) : Prop where
  levels : ∀ symbol side, next.levels symbol side = engine.levels symbol side
  index : next.index = engine.index

namespace LiquidityScan
open EngineSteps EngineInvariant VolumeLedger OnePass FillOrKill
variable {engine next mid : MatchingEngine} {cmd : AddOrder}

/-! ## The scan against the loop -/

theorem volume_append (first second : List Node) : volume (first ++ second) = volume first + volume second := by
  simp [volume]

/-- A total that fits in the word does not wrap. -/
theorem total_eq_volume (orders : List Node) (positive : ∀ order ∈ orders, 0 < order.remaining)
    {total : Int64} (nonneg : 0 ≤ total.toInt) (fits : total.toInt + volume orders < 2 ^ 63) :
    (orders.foldl (fun total order => total + order.remaining) total).toInt = total.toInt + volume orders := by
  induction orders generalizing total with
  | nil => simp
  | cons order rest ih =>
    have later := fun other member => positive other (List.mem_cons_of_mem order member)
    have gain := Int64.lt_iff_toInt_lt.mp (positive order (by simp))
    have behind := volume_nonneg later
    rw [Int64.toInt_zero] at gain
    rw [volume_cons] at fits ⊢
    have step : (total + order.remaining).toInt = total.toInt + order.remaining.toInt := by
      rw [Int64.toInt_add]
      exact Int.bmod_eq_of_le (by omega) (by omega)
    rw [List.foldl_cons, ih later (by omega) (by omega), step]
    omega

/-- The scan's answer is the volume in reach of a limit order. -/
theorem availableVolume_inReach (cmd : AddOrder) (wf : WellFormed engine) (limit : cmd.timeInForce ≠ .market)
    (fits : volume (engine.resting cmd.symbol (opposite cmd.side)) < 2 ^ 63) :
    (availableVolume (engine.bookFor cmd.symbol) (opposite cmd.side) cmd.priceTicks).toInt =
      volume (inReach cmd (engine.resting cmd.symbol (opposite cmd.side))) := by
  have positive : ∀ order ∈ engine.resting cmd.symbol (opposite cmd.side), 0 < order.remaining := by
    intro order member
    exact (PriceLevels.level_of_mem_queue (wf.sides _ _) member).1.remaining
  have reached : (fun order : Node => !beyond (opposite cmd.side) cmd.priceTicks order.priceTicks) =
      fun order => !violatesLimit cmd order.priceTicks := by
    funext order
    simp [← priceStops_eq, priceStops, limit]
  have split : volume (engine.resting cmd.symbol (opposite cmd.side)) =
      volume (inReach cmd (engine.resting cmd.symbol (opposite cmd.side))) +
        volume (outOfReach cmd (engine.resting cmd.symbol (opposite cmd.side))) := by
    rw [← volume_append, inReach, outOfReach, List.takeWhile_append_dropWhile]
  have behind : 0 ≤ volume (outOfReach cmd (engine.resting cmd.symbol (opposite cmd.side))) :=
    volume_nonneg fun order member => positive order ((List.dropWhile_suffix _).subset member)
  have total := total_eq_volume (inReach cmd (engine.resting cmd.symbol (opposite cmd.side)))
    (fun order member => positive order (List.takeWhile_subset _ member)) (show 0 ≤ (0 : Int64).toInt from le_rfl)
    (by rw [Int64.toInt_zero]; omega)
  rw [Int64.toInt_zero, Int.zero_add] at total
  rw [PriceLevels.availableVolume_eq _ (wf.sides _ _), reached]
  exact total

/-! ## The two orders -/

/-- The inner loop does not look at the time in force. -/
theorem matchLevel_terms (cmd : AddOrder) (terms : TimeInForce) (fuel : Nat) (level : Level)
    (state : MatchState) :
    matchLevel { cmd with timeInForce := terms } fuel level state = matchLevel cmd fuel level state := by
  induction fuel generalizing level state with
  | zero => rfl
  | succ fuel ih =>
    have front : ∀ passive rest, matchFront { cmd with timeInForce := terms } passive rest state =
        matchFront cmd passive rest state := fun _ _ => rfl
    simp only [matchLevel, front, ih]

/-- The outer loop looks at it only to tell market orders apart. -/
theorem matchLevels_terms {terms : TimeInForce} (limit : cmd.timeInForce ≠ .market) (same : terms ≠ .market)
    (fuel : Nat) (levels : BookSide) (state : MatchState) :
    matchLevels { cmd with timeInForce := terms } fuel levels state = matchLevels cmd fuel levels state := by
  induction fuel generalizing levels state with
  | zero => rfl
  | succ fuel ih =>
    have stops : ∀ price, priceStops { cmd with timeInForce := terms } price = priceStops cmd price := by
      intro price
      simp [priceStops, limit, same]
    simp only [matchLevels, stops, matchLevel_terms, ih]

/-- Two orders that differ in the time in force alone, both of them limit
orders that are not refused, do the same when nothing is left over. -/
theorem add_terms (wf : WellFormed engine) (terms : TimeInForce) (limit : cmd.timeInForce ≠ .market)
    (same : terms ≠ .market) (accepted : ¬ engine.refuses cmd)
    (accepts : ¬ engine.refuses { cmd with timeInForce := terms })
    (filled : (engine.walkOf cmd).remaining ≤ 0) :
    engine.add { cmd with timeInForce := terms } = engine.add cmd := by
  let start : MatchState := ⟨cmd.quantity, [⟨engine.sequence + 1, .accepted, cmd.symbol,
    [(.orderId, .int cmd.orderId), (.qty, .int cmd.quantity)]⟩], [], engine.sequence + 1, engine.index⟩
  obtain ⟨left, ran, -, -⟩ := MatchWalk.matchLevels_walk (wf.sides cmd.symbol (opposite cmd.side)) start
    (Nat.lt_succ_self _)
  have spent : ¬ 0 < (perform cmd start (walk cmd start.remaining
      (queue (opposite cmd.side) (engine.levels cmd.symbol (opposite cmd.side)))).steps).remaining :=
    not_lt.mpr ((MatchWalk.perform_remaining cmd start _).trans_le filled)
  unfold MatchingEngine.refuses at accepted accepts
  simp only [MatchingEngine.levels, start] at ran spent
  simp only [MatchingEngine.add, if_neg accepted, if_neg accepts, matchLevels_terms limit same,
    MatchingEngine.event, MatchingEngine.setBook, ran, bind, Except.bind, MatchingEngine.settleRemainder,
    if_neg spent]

/-- The two orders side by side in an engine whose opposite side fits in a word. -/
theorem ioc_and_fok (wf : WellFormed engine) (cmd : AddOrder) (plain : cmd.stp = .none)
    (positive : 0 < cmd.quantity) (fits : volume (engine.resting cmd.symbol (opposite cmd.side)) < 2 ^ 63) :
    ∃ iocNext ioc fokNext fok,
      engine.add { cmd with timeInForce := .ioc } = .ok (iocNext, ioc) ∧
      engine.add { cmd with timeInForce := .fok } = .ok (fokNext, fok) ∧
      tradedQty ioc.trades = min cmd.quantity.toInt
        (availableVolume (engine.bookFor cmd.symbol) (opposite cmd.side) cmd.priceTicks).toInt ∧
      (fok.reports .accepted ↔ ¬ engine.refuses { cmd with timeInForce := .fok }) ∧
      (¬ engine.refuses { cmd with timeInForce := .fok } → fok = ioc ∧ fokNext = iocNext) := by
  have taken : ¬ engine.refuses { cmd with timeInForce := .ioc } := by
    simp [MatchingEngine.refuses]
  obtain ⟨iocNext, ioc, ranIoc, ⟨first, others, events, kind⟩, traded⟩ :=
    accepted_trades wf taken positive.le
  have whole : tradeable { cmd with timeInForce := .ioc } = id := by
    funext queue
    simp [tradeable, plain]
  have scanned : (availableVolume (engine.bookFor cmd.symbol) (opposite cmd.side) cmd.priceTicks).toInt =
      volume (inReach { cmd with timeInForce := .ioc } (engine.resting cmd.symbol (opposite cmd.side))) :=
    availableVolume_inReach { cmd with timeInForce := .ioc } wf (by simp) fits
  rw [whole, id_eq, ← scanned] at traded
  by_cases refused : engine.refuses { cmd with timeInForce := .fok }
  · have unaccepted : ¬ Outcome.reports ⟨numbered cmd.symbol engine.sequence [(.rejected,
        [(.orderId, .int cmd.orderId), (.reason, .str (ascii "FOK_UNFILLABLE"))])], []⟩ .accepted := by
      simp [Outcome.reports, numbered]
    exact ⟨iocNext, ioc, _, _, ranIoc, add_refused refused, traded,
      iff_of_false unaccepted (not_not.mpr refused), fun accepted => absurd refused accepted⟩
  · have filled : (engine.walkOf { cmd with timeInForce := .fok }).remaining ≤ 0 :=
      fok_filled wf rfl plain refused
    have same : engine.add { cmd with timeInForce := .fok } = .ok (iocNext, ioc) := by
      rw [← ranIoc]
      exact (add_terms wf .ioc (by simp) (by simp) refused taken filled).symm
    refine ⟨iocNext, ioc, iocNext, ioc, ranIoc, same, traded, iff_of_true ?_ refused, fun _ => ⟨rfl, rfl⟩⟩
    exact ⟨first, by simp [events], kind⟩

/-- In every reachable state whose opposite side fits in a word, an
immediate-or-cancel order executes what the scan counts, up to its quantity.
The fill-or-kill order with its other fields is accepted exactly when that is
all of the quantity, and then the two calls return and leave behind the same. -/
theorem scan_agrees_with_loop (reachable : Reachable engine) (cmd : AddOrder) (plain : cmd.stp = .none)
    (positive : 0 < cmd.quantity) (fits : volume (engine.resting cmd.symbol (opposite cmd.side)) < 2 ^ 63) :
    ∃ iocNext ioc fokNext fok,
      engine.add { cmd with timeInForce := .ioc } = .ok (iocNext, ioc) ∧
      engine.add { cmd with timeInForce := .fok } = .ok (fokNext, fok) ∧
      tradedQty ioc.trades = min cmd.quantity.toInt
        (availableVolume (engine.bookFor cmd.symbol) (opposite cmd.side) cmd.priceTicks).toInt ∧
      (fok.reports .accepted ↔ tradedQty ioc.trades = cmd.quantity.toInt) ∧
      (fok.reports .accepted → fok = ioc ∧ fokNext = iocNext) := by
  obtain ⟨iocNext, ioc, fokNext, fok, ranIoc, ranFok, traded, accepted, same⟩ :=
    ioc_and_fok (reachable_wellFormed reachable) cmd plain positive fits
  have scan : ¬ engine.refuses { cmd with timeInForce := .fok } ↔ tradedQty ioc.trades = cmd.quantity.toInt := by
    rw [traded, min_eq_left_iff, ← Int64.le_iff_toInt_le]
    simp [MatchingEngine.refuses]
  exact ⟨iocNext, ioc, fokNext, fok, ranIoc, ranFok, traded, accepted.trans scan, same ∘ accepted.mp⟩

/-- Two asks within the limit and one beyond it. -/
def threeAsks : List Command :=
  [100, 101, 102].map fun price =>
    .add { symbol := ascii "S", orderId := price, participantId := ascii "A", side := .sell,
           priceTicks := price, quantity := 3 }

def takeFive : AddOrder :=
  { symbol := ascii "S", orderId := 1, participantId := ascii "B", priceTicks := 101, quantity := 5 }

theorem scan_agrees_on_three_asks :
    ∃ iocNext ioc fokNext fok,
      (engineAfter threeAsks).add { takeFive with timeInForce := .ioc } = .ok (iocNext, ioc) ∧
      (engineAfter threeAsks).add { takeFive with timeInForce := .fok } = .ok (fokNext, fok) ∧
      tradedQty ioc.trades = min (5 : Int64).toInt
        (availableVolume ((engineAfter threeAsks).bookFor (ascii "S")) .sell 101).toInt ∧
      (fok.reports .accepted ↔ tradedQty ioc.trades = (5 : Int64).toInt) ∧
      (fok.reports .accepted → fok = ioc ∧ fokNext = iocNext) :=
  scan_agrees_with_loop (reachable_engineAfter threeAsks) takeFive rfl (by decide) (by decide)

/-! ## A replace the scan refuses -/

/-- The events of an accepted add report no rejection. -/
theorem addReports_kind (cmd : AddOrder) (walk : Walk) {report : EventType × Payload}
    (member : report ∈ addReports cmd walk) : report.1 ≠ .rejected := by
  simp only [addReports, List.mem_cons, List.mem_append, List.mem_map] at member
  rcases member with rfl | ⟨step, -, rfl⟩ | last
  · simp
  · cases step <;> simp [Step.report]
  · unfold closing at last
    split at last
    · cases tif : cmd.timeInForce <;> simp [tif] at last <;> simp [last]
    · simp at last

/-- An add that reports a rejection was refused by the scan. -/
theorem refuses_of_rejected (wf : WellFormed engine) {outcome : Outcome}
    (ran : engine.add cmd = .ok (next, outcome)) (rejected : outcome.reports .rejected) : engine.refuses cmd := by
  cases added_of_ran wf ran with
  | refused refuses => exact refuses
  | accepted accepts mid matched =>
    obtain ⟨event, member, kind⟩ := rejected
    exact absurd kind (addReports_kind cmd _ (mem_numbered member).2)

/-- In every reachable state a replace returns, and when its events contain a
rejection it is one of two: the id is unknown and no order changes, or the
order was cancelled, exactly as its cancel alone would have done, and the
fill-or-kill order meant to follow it was refused. -/
theorem replace_rejected (reachable : Reachable engine) (cmd : ReplaceOrder) :
    ∃ next outcome, engine.replace cmd = .ok (next, outcome) ∧ (outcome.reports .rejected →
      (engine.index.lookup cmd.orderId = none ∧ outcome.trades = [] ∧
        outcome.events.map ExecEvent.type = [.rejected] ∧ SameOrders engine next) ∨
      (cmd.timeInForce = .fok ∧ ∃ original left cancelled,
        engine.cancel ⟨cmd.symbol, cmd.orderId⟩ = .ok (left, [cancelled]) ∧
        original.orderId = cmd.orderId ∧ Removed engine original left ∧
        left.index = engine.index.erase cmd.orderId ∧ outcome.trades = [] ∧
        outcome.events = [cancelled, ⟨left.sequence + 1, .rejected, cmd.symbol,
          [(.orderId, .int cmd.newOrderId), (.reason, .str (ascii "FOK_UNFILLABLE"))]⟩] ∧
        cancelled.type = .cancelled ∧ SameOrders left next)) := by
  have wf := reachable_wellFormed reachable
  cases entry : engine.index.lookup cmd.orderId with
  | none =>
    refine ⟨_, _, replace_unknown entry, fun _ => Or.inl ⟨rfl, rfl, by simp [numbered], ?_⟩⟩
    exact ⟨fun _ _ => rfl, rfl⟩
  | some loc =>
    obtain ⟨original, left, taken, cancelled⟩ := cancel_known wf ⟨cmd.symbol, cmd.orderId⟩ entry
    obtain ⟨next, outcome, added, -⟩ := add_wellFormed taken.wellFormed
      (MatchingEngine.replacementOrder cmd original.participantId loc.side)
    refine ⟨next, _, replace_known entry taken.reached cancelled added, fun rejected => Or.inr ?_⟩
    -- The cancel reports no rejection, so the add does.
    have refused : outcome.reports .rejected := by
      obtain ⟨event, member, kind⟩ := rejected
      refine ⟨event, (List.mem_append.mp member).resolve_left fun first => ?_, kind⟩
      have report := (mem_numbered first).2
      simp [kind] at report
    have refuses := refuses_of_rejected taken.wellFormed added refused
    rw [add_refused refuses] at added
    cases added
    refine ⟨refuses.1, original, left, _, cancelled, taken.named, taken.removed, taken.index, rfl, rfl, rfl, ?_⟩
    exact ⟨fun symbol side => levels_open left _ symbol side, rfl⟩

/-- Replaces the only ask of the book by a fill-or-kill ask nobody faces. -/
def replaceByFok : ReplaceOrder :=
  { symbol := ascii "S", orderId := 1, newOrderId := 2, newPriceTicks := 100, newQuantity := 5,
    timeInForce := .fok }

theorem fok_replace_rejected :
    ∃ next outcome, (engineAfter oneAsk).replace replaceByFok = .ok (next, outcome) ∧
      (outcome.reports .rejected →
        ((engineAfter oneAsk).index.lookup 1 = none ∧ outcome.trades = [] ∧
          outcome.events.map ExecEvent.type = [.rejected] ∧ SameOrders (engineAfter oneAsk) next) ∨
        (TimeInForce.fok = .fok ∧ ∃ original left cancelled,
          (engineAfter oneAsk).cancel ⟨ascii "S", 1⟩ = .ok (left, [cancelled]) ∧
          original.orderId = 1 ∧ Removed (engineAfter oneAsk) original left ∧
          left.index = (engineAfter oneAsk).index.erase 1 ∧ outcome.trades = [] ∧
          outcome.events = [cancelled, ⟨left.sequence + 1, .rejected, ascii "S",
            [(.orderId, .int 2), (.reason, .str (ascii "FOK_UNFILLABLE"))]⟩] ∧
          cancelled.type = .cancelled ∧ SameOrders left next)) :=
  replace_rejected (reachable_engineAfter oneAsk) replaceByFok

/-- The refused replace has lost the order it was to replace. -/
theorem rejected_replace_loses_the_order :
    ¬ ∀ engine, Reachable engine → ∀ cmd next outcome, engine.replace cmd = .ok (next, outcome) →
      outcome.reports .rejected → SameOrders engine next := by
  intro atomic
  have ran : ((engineAfter oneAsk).replace replaceByFok).map (fun result =>
      (result.2.events.map ExecEvent.type, result.1.index.lookup 1)) =
        .ok ([.cancelled, .rejected], none) := by decide
  cases replaced : (engineAfter oneAsk).replace replaceByFok with
  | error fault => simp [replaced, Except.map] at ran
  | ok result =>
    obtain ⟨next, outcome⟩ := result
    simp only [replaced, Except.map, Except.ok.injEq, Prod.mk.injEq] at ran
    have rejected : outcome.reports .rejected := by
      have member : EventType.rejected ∈ outcome.events.map ExecEvent.type := by simp [ran.1]
      exact List.mem_map.mp member
    have same := (atomic _ (reachable_engineAfter oneAsk) _ _ _ replaced rejected).index
    rw [same] at ran
    exact absurd ran.2 (by decide)

end LiquidityScan
end Exchange
