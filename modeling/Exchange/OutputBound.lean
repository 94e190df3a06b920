import Exchange.EventNumbers
import Exchange.VolumeLedger

/-! How much a run can say. An incoming order may meet any number of resting
orders, but each of them came in by a command of its own and leaves the book
once: what many fills cost has been paid for by the orders filled. -/
namespace Exchange.OutputBound
open EngineSteps EngineInvariant VolumeLedger

variable {engine mid next : MatchingEngine} {cmd : AddOrder} {outcome : Outcome}

/-- The orders a command adds to those there are. -/
def bringsIn : Command → Nat
  | .add _ => 1
  | .cancel _ | .replace _ => 0

/-- The events of a command that meets no other order, and the order that may come to rest. -/
def mayReport : Command → Nat
  | .add _ | .replace _ => 3
  | .cancel _ => 1

/-! ## The walk -/

/-- The step that may take no order out: it leaves nothing of the incoming one. -/
def lastStep (remaining : Int64) : Nat := if 0 < remaining then 0 else 1

/-- A remainder comes to rest or is cancelled, with one event. -/
def remainder (remaining : Int64) : Nat := if 0 < remaining then 1 else 0

theorem lastStep_or_remainder (remaining : Int64) : lastStep remaining + remainder remaining = 1 := by
  unfold lastStep remainder
  split <;> rfl

/-- Every step but the last takes an order out, and after the last one nothing
is left to rest. -/
theorem walk_count (cmd : AddOrder) (remaining : Int64) (queue : List Node) :
    (walk cmd remaining queue).steps.length + (walk cmd remaining queue).rest.length ≤
      queue.length + lastStep (walk cmd remaining queue).remaining := by
  have spent : lastStep 0 = 1 := rfl
  induction queue generalizing remaining with
  | nil => exact Nat.zero_le _
  | cons passive rest ih =>
    rw [walk]
    split
    · simp
    split
    · split
      · simp only [List.length_cons, List.length_nil, spent]
        omega
      · simp only [List.length_cons, List.length_nil, spent]
        omega
      · have later := ih remaining
        simp only [Walk.after, List.length_cons]
        omega
    split
    · simp only [List.length_cons, List.length_nil, spent]
      omega
    · have later := ih (remaining - passive.remaining)
      simp only [Walk.after, List.length_cons]
      omega

/-! ## Counting orders -/

theorem sumOver_one (orders : List Node) : sumOver (fun _ => 1) orders = orders.length := by
  induction orders with
  | nil => rfl
  | cons order orders ih =>
    rw [sumOver_cons, ih, List.length_cons]
    push_cast
    omega

/-- Where one queue changed, there are as many more or fewer orders. -/
theorem orders_change (symbol : Bytes) (side : Side)
    (elsewhere : ∀ symbol' side', symbol' ≠ symbol ∨ side' ≠ side →
      next.levels symbol' side' = engine.levels symbol' side') :
    next.orders.length + (engine.resting symbol side).length =
      engine.orders.length + (next.resting symbol side).length := by
  have change := sumOver_change (fun _ => 1) symbol side elsewhere
  simp only [sumOver_one] at change
  omega

theorem orders_congr (levels : ∀ symbol side, next.levels symbol side = engine.levels symbol side) :
    next.orders.length = engine.orders.length := by
  have same := orders_change [] .buy fun symbol side _ => levels symbol side
  rw [resting_of_levels (levels [] .buy)] at same
  omega

/-- At most the remainder is new. -/
theorem settled_count (midWf : WellFormed mid) (cmd : AddOrder) (remaining : Int64) :
    (settled mid cmd remaining).orders.length ≤ mid.orders.length + remainder remaining := by
  by_cases resting : rests cmd remaining
  · have inserted := restOrder_inserted (midWf.sides cmd.symbol cmd.side) resting.1
    obtain ⟨ahead, behind, before, after, -, -⟩ := inserted.queue
    have change := orders_change _ _ inserted.elsewhere
    rw [before, after, List.length_append, List.length_append, List.length_cons] at change
    rw [settled, if_pos resting, remainder, if_pos resting.1]
    change (mid.restOrder cmd remaining).orders.length ≤ _
    omega
  · rw [settled, if_neg resting]
    exact Nat.le_add_right _ _

theorem closing_length (cmd : AddOrder) (remaining : Int64) :
    (closing cmd remaining).length ≤ remainder remaining := by
  unfold closing remainder
  split
  · cases cmd.timeInForce <;> simp
  · simp

theorem taken_count {loc : Location} {order : Node} {orderId : Int64} (taken : TakenOut engine orderId loc order next) :
    next.orders.length + 1 = engine.orders.length := by
  obtain ⟨ahead, behind, whole, left⟩ := taken.removed.queue
  have change := orders_change order.symbol order.side taken.removed.elsewhere
  rw [whole, left, List.length_append, List.length_append, List.length_cons] at change
  omega

/-! ## Commands -/

/-- What came out, and what rests, are paid for. -/
def Paid (engine next : MatchingEngine) (outcome : Outcome) (trades events : Nat) : Prop :=
  outcome.trades.length + next.orders.length ≤ engine.orders.length + trades ∧
    outcome.events.length + next.orders.length ≤ engine.orders.length + events

theorem add_paid (wf : WellFormed engine) (ran : engine.add cmd = .ok (next, outcome)) :
    Paid engine next outcome 1 3 := by
  cases added_of_ran wf ran with
  | refused refuses =>
    have same := orders_congr fun symbol side => levels_open engine cmd.symbol symbol side
    have count : ({ engine.setBook cmd.symbol (engine.bookFor cmd.symbol) with
        sequence := engine.sequence + 1 } : MatchingEngine).orders.length = engine.orders.length := same
    rw [Paid, count, numbered_length]
    simp only [List.length_cons, List.length_nil]
    omega
  | accepted accepts mid matched =>
    have walked := orders_change cmd.symbol (opposite cmd.side) matched.elsewhere
    rw [matched.rest] at walked
    have steps := walk_count cmd cmd.quantity (engine.resting cmd.symbol (opposite cmd.side))
    have after := settled_count (matched_wellFormed wf matched) cmd (engine.walkOf cmd).remaining
    have closed := closing_length cmd (engine.walkOf cmd).remaining
    have fills := List.length_filterMap_le (Step.trade cmd) (engine.walkOf cmd).steps
    have ends := lastStep_or_remainder (engine.walkOf cmd).remaining
    simp only [Paid, numbered_length, addReports, List.length_cons, List.length_append, List.length_map]
    unfold MatchingEngine.walkOf at *
    omega

theorem apply_paid (wf : WellFormed engine) {command : Command} (ran : engine.apply command = .ok (next, outcome)) :
    Paid engine next outcome (bringsIn command) (mayReport command) := by
  cases applied_of_ran wf ran with
  | add cmd ran => exact add_paid wf ran
  | cancelUnknown cmd missing =>
    rw [Paid, numbered_length]
    exact ⟨Nat.le_of_eq (Nat.zero_add _), Nat.le_of_eq (Nat.add_comm _ _)⟩
  | cancelKnown cmd loc order entry taken =>
    have fewer := taken_count taken
    rw [Paid, numbered_length]
    simp only [bringsIn, mayReport, List.length_cons, List.length_nil]
    omega
  | replaceUnknown cmd missing =>
    rw [Paid, numbered_length]
    simp only [bringsIn, mayReport, List.length_cons, List.length_nil]
    change _ + engine.orders.length ≤ _ ∧ _ + engine.orders.length ≤ _
    omega
  | replaceKnown cmd loc order mid added entry taken ranAdd =>
    have fewer := taken_count taken
    obtain ⟨trades, events⟩ := add_paid taken.wellFormed ranAdd
    rw [Paid, List.length_append, numbered_length]
    simp only [bringsIn, mayReport, List.length_cons, List.length_nil]
    omega

/-! ## Runs -/

def tradeCount (outcome : Outcome) : Nat := outcome.trades.length

def eventCount (outcome : Outcome) : Nat := outcome.events.length

/-- The event counter counts the events. -/
theorem counter_counts (commands : List Command) :
    ∃ engine outcomes, run MatchingEngine.apply {} commands = .ok (engine, outcomes) ∧
      WellFormed engine ∧ engine.sequence = (outcomes.map eventCount).sum := by
  refine Runs.run_history (fun _ _ => True)
    (fun engine outcomes => WellFormed engine ∧ engine.sequence = (outcomes.map eventCount).sum) ?_ []
    ⟨wellFormed_empty, rfl⟩ (Runs.meets_of_forall (fun _ _ => trivial) commands)
  intro engine outcomes command counted _
  obtain ⟨wf, sequence⟩ := counted
  obtain ⟨next, outcome, ran, nextWf⟩ := apply_wellFormed wf command
  obtain ⟨reports, events, counter⟩ := EventNumbers.apply_numbered wf ran
  refine ⟨next, outcome, ran, nextWf, ?_⟩
  rw [counter, sequence, List.map_append, List.sum_append, List.map_singleton, List.sum_singleton, eventCount, events,
    numbered_length]
  push_cast
  rfl

/-- In any run the trades and the orders that still rest are together no more than
the adds, and the events and these orders no more than three for every add or
replace and one for every cancel. The event counter is the number of events. -/
theorem outputs_are_paid_for (commands : List Command) :
    ∃ engine outcomes, run MatchingEngine.apply {} commands = .ok (engine, outcomes) ∧
      (outcomes.map tradeCount).sum + engine.orders.length ≤ (commands.map bringsIn).sum ∧
      (outcomes.map eventCount).sum + engine.orders.length ≤ (commands.map mayReport).sum ∧
      engine.sequence = (outcomes.map eventCount).sum := by
  have paid (engine : MatchingEngine) (command : Command) (wf : WellFormed engine) :
      ∃ next outcome, engine.apply command = .ok (next, outcome) ∧ WellFormed next ∧
        Paid engine next outcome (bringsIn command) (mayReport command) := by
    obtain ⟨next, outcome, ran, nextWf⟩ := apply_wellFormed wf command
    exact ⟨next, outcome, ran, nextWf, apply_paid wf ran⟩
  obtain ⟨engine, outcomes, ran, -, counter⟩ := counter_counts commands
  obtain ⟨_, _, ranTrades, -, trades⟩ :=
    Runs.run_amortised WellFormed (fun engine => engine.orders.length) tradeCount
    bringsIn (fun engine command wf => by
      obtain ⟨next, outcome, ran, nextWf, inTrades, -⟩ := paid engine command wf
      exact ⟨next, outcome, ran, nextWf, inTrades⟩) wellFormed_empty commands
  obtain ⟨_, _, ranEvents, -, events⟩ :=
    Runs.run_amortised WellFormed (fun engine => engine.orders.length) eventCount
    mayReport (fun engine command wf => by
      obtain ⟨next, outcome, ran, nextWf, -, inEvents⟩ := paid engine command wf
      exact ⟨next, outcome, ran, nextWf, inEvents⟩) wellFormed_empty commands
  rw [ran] at ranTrades ranEvents
  cases ranTrades
  cases ranEvents
  have none : ({} : MatchingEngine).orders.length = 0 := rfl
  rw [none, Nat.zero_add] at trades events
  exact ⟨engine, outcomes, ran, trades, events, counter⟩

end Exchange.OutputBound
