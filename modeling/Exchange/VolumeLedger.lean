import Mathlib
import Exchange.EngineInvariant

/-! Where the quantity of every order went. An accepted quantity leaves an
order by aggressive fills, passive fills and cancellations, each reported by
one event, and what has not left is resting. The ledger of a run is its list
of events, and it is balanced for every set of order ids at once: one id gives
the account of an order, all ids give the totals. -/
namespace Exchange.VolumeLedger
open EngineSteps EngineInvariant

/-! ## Accounts, read from events -/

/-- The number under a key, nothing being zero. -/
def amount (key : PayloadKey) (event : ExecEvent) : Int :=
  ((payloadInt event.payload key).map Int64.toInt).getD 0

/-- The event names this order under the key. -/
def names (key : PayloadKey) (orderId : Int64) (event : ExecEvent) : Bool :=
  payloadInt event.payload key = some orderId

def ofType (type : EventType) (events : List ExecEvent) : List ExecEvent :=
  events.filter fun event => event.type = type

/-- The ids of all Accepted events. -/
def acceptedIds (events : List ExecEvent) : List Int64 :=
  (ofType .accepted events).filterMap fun event => payloadInt event.payload .orderId

/-- Executed quantity over the events that name the order on either side. -/
def executedQty (orderId : Int64) (events : List ExecEvent) : Int :=
  (((ofType .executed events).filter fun event =>
    names .aggressiveOrderId orderId event || names .passiveOrderId orderId event).map (amount .qty)).sum

/-- The Cancelled events of an order. -/
def cancellations (orderId : Int64) (events : List ExecEvent) : List ExecEvent :=
  (ofType .cancelled events).filter (names .orderId orderId)

/-- The resting orders with an id. -/
def restingUnder (orderId : Int64) (engine : MatchingEngine) : List Node :=
  engine.orders.filter fun order => order.orderId = orderId

def volume (orders : List Node) : Int := (orders.map fun order => order.remaining.toInt).sum

/-- What one trade and one Executed event say in common: the two order ids,
the price and the quantity. -/
def terms (trade : Trade) : Payload :=
  [(.aggressiveOrderId, .int trade.aggressiveOrderId), (.passiveOrderId, .int trade.passiveOrderId),
    (.priceTicks, .int trade.priceTicks), (.qty, .int trade.quantity)]

/-- The account of every accepted order is settled by what was executed,
cancelled and still rests; trades and Executed events say the same; and the
totals agree with the resting volume. -/
structure Balanced (engine : MatchingEngine) (outcomes : List Outcome) : Prop where
  account : ∀ event ∈ ofType .accepted (outcomes.flatMap Outcome.events), ∀ orderId quantity,
    payloadInt event.payload .orderId = some orderId → payloadInt event.payload .qty = some quantity →
    quantity.toInt = executedQty orderId (outcomes.flatMap Outcome.events) +
      ((cancellations orderId (outcomes.flatMap Outcome.events)).map (amount .remaining)).sum +
      volume (restingUnder orderId engine)
  cancelledOnce : ∀ orderId,
    (cancellations orderId (outcomes.flatMap Outcome.events)).length ≤ 1
  restsOnce : ∀ orderId, (restingUnder orderId engine).length ≤ 1
  trades : ∀ outcome ∈ outcomes,
    outcome.trades.map terms = (ofType .executed outcome.events).map ExecEvent.payload
  total : ((ofType .accepted (outcomes.flatMap Outcome.events)).map (amount .qty)).sum -
      2 * ((ofType .executed (outcomes.flatMap Outcome.events)).map (amount .qty)).sum -
      ((ofType .cancelled (outcomes.flatMap Outcome.events)).map (amount .remaining)).sum =
    volume engine.orders

/-- Positive quantities, and fill-or-kill without self-trade prevention. -/
def Regular : Command → Prop
  | .add cmd => 0 < cmd.quantity ∧ (cmd.timeInForce = .fok → cmd.stp = .none)
  | .cancel _ => True
  | .replace cmd => 0 < cmd.newQuantity

instance : ∀ command, Decidable (Regular command)
  | .add _ => inferInstanceAs (Decidable (_ ∧ _))
  | .cancel _ => inferInstanceAs (Decidable True)
  | .replace _ => inferInstanceAs (Decidable (_ < _))

/-! ## Totals over the engine's orders -/

section Totals
variable (weight : Node → Int) {engine next : MatchingEngine} {symbol : Bytes} {side : Side}

/-- A quantity summed over a queue. -/
def sumOver (orders : List Node) : Int := (orders.map weight).sum

@[simp] theorem sumOver_nil : sumOver weight [] = 0 := rfl

@[simp] theorem sumOver_cons (order : Node) (orders : List Node) :
    sumOver weight (order :: orders) = weight order + sumOver weight orders := by
  simp [sumOver]

@[simp] theorem sumOver_append (first second : List Node) :
    sumOver weight (first ++ second) = sumOver weight first + sumOver weight second := by
  simp [sumOver]

/-- Both queues of one symbol. -/
def bookTotal (engine : MatchingEngine) (symbol : Bytes) : Int :=
  sumOver weight (engine.resting symbol .buy) + sumOver weight (engine.resting symbol .sell)

/-- The total over all books can be taken over any set of symbols that has them. -/
theorem sumOver_orders {symbols : Finset Bytes} (listed : ∀ symbol ∈ engine.books, symbol ∈ symbols) :
    sumOver weight engine.orders = ∑ symbol ∈ symbols, bookTotal weight engine symbol := by
  have perBook : sumOver weight engine.orders =
      (engine.books.keys.map (bookTotal weight engine)).sum := by
    have stored : ∀ entry ∈ engine.books.entries, bookTotal weight engine entry.1 =
        sumOver weight (queue .buy entry.2.bids ++ queue .sell entry.2.asks) := by
      rintro ⟨symbol, book⟩ member
      have found : engine.bookFor symbol = book := by
        simp [MatchingEngine.bookFor, AList.mem_lookup_iff.mpr member |> Option.mem_def.mp]
      simp [bookTotal, MatchingEngine.resting, MatchingEngine.levels, found, Book.side]
    rw [AList.keys, List.keys, List.map_map, MatchingEngine.orders]
    generalize engine.books.entries = entries at stored
    induction entries with
    | nil => rfl
    | cons entry entries ih =>
      simp only [List.flatMap_cons, List.map_cons, List.sum_cons, Function.comp_apply]
      rw [sumOver_append weight, ih fun entry member => stored entry (List.mem_cons_of_mem _ member),
        stored entry (by simp)]
  rw [perBook, ← List.sum_toFinset _ engine.books.keys_nodup]
  refine Finset.sum_subset (fun symbol member => listed symbol (by simpa [AList.mem_keys] using member)) ?_
  intro symbol _ missing
  have none : engine.books.lookup symbol = none := by
    rw [AList.lookup_eq_none]
    simpa [AList.mem_keys] using missing
  simp [bookTotal, MatchingEngine.resting, MatchingEngine.levels, MatchingEngine.bookFor, none, Book.side]

/-- Where one queue changed, the total changed by as much. -/
theorem sumOver_change (symbol : Bytes) (side : Side)
    (elsewhere : ∀ symbol' side', symbol' ≠ symbol ∨ side' ≠ side →
      next.levels symbol' side' = engine.levels symbol' side') :
    sumOver weight next.orders = sumOver weight engine.orders +
      (sumOver weight (next.resting symbol side) - sumOver weight (engine.resting symbol side)) := by
  classical
  let symbols : Finset Bytes := insert symbol (engine.books.keys.toFinset ∪ next.books.keys.toFinset)
  have oldListed : ∀ symbol ∈ engine.books, symbol ∈ symbols := by
    intro symbol member
    simp [symbols, AList.mem_keys.mp member]
  have newListed : ∀ symbol ∈ next.books, symbol ∈ symbols := by
    intro symbol member
    simp [symbols, AList.mem_keys.mp member]
  have same : ∀ symbol' side', symbol' ≠ symbol ∨ side' ≠ side →
      next.resting symbol' side' = engine.resting symbol' side' := by
    intro symbol' side' away
    simp [MatchingEngine.resting, elsewhere symbol' side' away]
  have perSymbol : ∀ symbol' ∈ symbols, bookTotal weight next symbol' =
      bookTotal weight engine symbol' + if symbol' = symbol then
        sumOver weight (next.resting symbol side) - sumOver weight (engine.resting symbol side) else 0 := by
    intro symbol' _
    by_cases here : symbol' = symbol
    · subst here
      cases side with
      | buy => simp only [bookTotal, same symbol' .sell (Or.inr (by decide)), ↓reduceIte]; omega
      | sell => simp only [bookTotal, same symbol' .buy (Or.inr (by decide)), ↓reduceIte]; omega
    · simp [bookTotal, here, same symbol' _ (Or.inl here)]
  rw [sumOver_orders weight newListed, sumOver_orders weight oldListed, Finset.sum_congr rfl perSymbol,
    Finset.sum_add_distrib, Finset.sum_ite_eq']
  simp [symbols]

end Totals

/-! ## What one event does to the accounts of a set of orders -/

/-- An amount that counts for an order of the set only. -/
def mine (ours : Int64 → Bool) (orderId : Int64) (quantity : Int) : Int :=
  if ours orderId then quantity else 0

/-- The quantity under `field`, if the order under `key` is in the set. -/
def share (ours : Int64 → Bool) (key field : PayloadKey) (event : ExecEvent) : Int :=
  match payloadInt event.payload key with
  | some orderId => mine ours orderId (amount field event)
  | none => 0

/-- One, if the order under `orderId` is in the set. -/
def once (ours : Int64 → Bool) (event : ExecEvent) : Int :=
  match payloadInt event.payload .orderId with
  | some orderId => mine ours orderId 1
  | none => 0

/-- What an event says was added to the resting volume of the set. -/
def net (ours : Int64 → Bool) (event : ExecEvent) : Int :=
  match event.type with
  | .accepted => share ours .orderId .qty event
  | .executed => -share ours .aggressiveOrderId .qty event - share ours .passiveOrderId .qty event
  | .cancelled => -share ours .orderId .remaining event
  | .rested | .rejected => 0

/-- How many orders of the set an event lets rest at most. -/
def standing (ours : Int64 → Bool) (event : ExecEvent) : Int :=
  match event.type with
  | .accepted => once ours event
  | .cancelled => -once ours event
  | .executed | .rested | .rejected => 0

/-- The event a report becomes, up to its number and symbol. -/
def unnumbered (report : EventType × Payload) : ExecEvent := ⟨0, report.1, [], report.2⟩

def volumeIn (ours : Int64 → Bool) (order : Node) : Int := mine ours order.orderId order.remaining.toInt

def countIn (ours : Int64 → Bool) (order : Node) : Int := mine ours order.orderId 1

variable {ours : Int64 → Bool} {cmd : AddOrder} {engine mid next : MatchingEngine}

theorem mine_nonneg {orderId : Int64} {quantity : Int} (nonneg : 0 ≤ quantity) :
    0 ≤ mine ours orderId quantity := by
  unfold mine
  split <;> omega

/-- Sums over a command's events do not see their numbers. -/
theorem sum_numbered {f : ExecEvent → Int} (blind : ∀ event, f event = f (unnumbered (event.type, event.payload)))
    (symbol : Bytes) (sequence : Int) (reports : List (EventType × Payload)) :
    ((numbered symbol sequence reports).map f).sum = (reports.map fun report => f (unnumbered report)).sum := by
  induction reports generalizing sequence with
  | nil => rfl
  | cons report rest ih =>
    simp only [numbered, List.map_cons, List.sum_cons, ih]
    rw [blind]

theorem net_blind (ours : Int64 → Bool) (event : ExecEvent) :
    net ours event = net ours (unnumbered (event.type, event.payload)) := rfl

theorem standing_blind (ours : Int64 → Bool) (event : ExecEvent) :
    standing ours event = standing ours (unnumbered (event.type, event.payload)) := rfl

theorem toInt_sub_of_le {larger smaller : Int64} (positive : 0 < smaller) (le : smaller ≤ larger) :
    (larger - smaller).toInt = larger.toInt - smaller.toInt := by
  rw [Int64.lt_iff_toInt_lt] at positive
  rw [Int64.le_iff_toInt_le] at le
  have zero : (0 : Int64).toInt = 0 := rfl
  have low := smaller.le_toInt
  have high := larger.toInt_lt
  rw [Int64.toInt_sub]
  apply Int.bmod_eq_of_le <;> omega

/-- Taking a positive part off a quantity that covers it. -/
theorem sub_bounds {larger smaller : Int64} (positive : 0 < smaller) (le : smaller ≤ larger) :
    0 ≤ larger - smaller ∧ larger - smaller ≤ larger := by
  have less := toInt_sub_of_le positive le
  rw [Int64.lt_iff_toInt_lt, Int64.toInt_zero] at positive
  rw [Int64.le_iff_toInt_le] at le
  rw [Int64.le_iff_toInt_le, Int64.le_iff_toInt_le, less, Int64.toInt_zero]
  omega

@[simp] theorem mine_zero (orderId : Int64) : mine ours orderId 0 = 0 := by simp [mine]

theorem mine_sub (orderId : Int64) (first second : Int) :
    mine ours orderId (first - second) = mine ours orderId first - mine ours orderId second := by
  unfold mine
  split <;> omega

@[simp] theorem net_fill (passive : Node) (qty : Int64) :
    net ours (unnumbered (Step.report cmd (.fill passive qty))) =
      -mine ours cmd.orderId qty.toInt - mine ours passive.orderId qty.toInt := rfl

@[simp] theorem net_cancelPassive (passive : Node) :
    net ours (unnumbered (Step.report cmd (.cancelPassive passive))) = -volumeIn ours passive := rfl

@[simp] theorem net_cancelAggressor (remaining : Int64) :
    net ours (unnumbered (Step.report cmd (.cancelAggressor remaining))) =
      -mine ours cmd.orderId remaining.toInt := rfl

@[simp] theorem standing_fill (passive : Node) (qty : Int64) :
    standing ours (unnumbered (Step.report cmd (.fill passive qty))) = 0 := rfl

@[simp] theorem standing_cancelPassive (passive : Node) :
    standing ours (unnumbered (Step.report cmd (.cancelPassive passive))) = -countIn ours passive := rfl

@[simp] theorem standing_cancelAggressor (remaining : Int64) :
    standing ours (unnumbered (Step.report cmd (.cancelAggressor remaining))) =
      -mine ours cmd.orderId 1 := rfl

/-- Every step of the walk moves quantity from the two accounts it names to its event. -/
theorem walk_net (ours : Int64 → Bool) (cmd : AddOrder) (remaining : Int64) {queue : List Node}
    (positive : ∀ order ∈ queue, 0 < order.remaining) :
    ((walk cmd remaining queue).steps.map fun step => net ours (unnumbered (step.report cmd))).sum +
        mine ours cmd.orderId remaining.toInt =
      mine ours cmd.orderId (walk cmd remaining queue).remaining.toInt +
        (sumOver (volumeIn ours) (walk cmd remaining queue).rest - sumOver (volumeIn ours) queue) := by
  induction queue generalizing remaining with
  | nil => simp [walk]
  | cons passive rest ih =>
    have later := fun order member => positive order (List.mem_cons_of_mem passive member)
    have zero : (0 : Int64).toInt = 0 := rfl
    simp only [walk]
    split
    · simp
    · rename_i started
      split
      · split
        · simp only [List.map_cons, List.map_nil, List.sum_cons, List.sum_nil, net_cancelPassive,
            net_cancelAggressor, sumOver_cons, zero, mine_zero]
          omega
        · simp [zero]
        · have moved := ih remaining later
          simp only [Walk.after, List.map_cons, List.sum_cons, net_cancelPassive, sumOver_cons]
          omega
      · split
        · rename_i partly
          have more : 0 < remaining := not_le.mp fun done => started (Or.inl done)
          simp only [List.map_cons, List.map_nil, List.sum_cons, List.sum_nil, net_fill, sumOver_cons,
            volumeIn, toInt_sub_of_le more (le_of_lt partly), mine_sub, zero, mine_zero]
          omega
        · rename_i whole
          have moved := ih (remaining - passive.remaining) later
          rw [toInt_sub_of_le (positive passive (by simp)) (not_lt.mp whole), mine_sub] at moved
          simp only [Walk.after, List.map_cons, List.sum_cons, net_fill, sumOver_cons]
          rw [volumeIn]
          omega

/-- The one order an incoming quantity that is used up no longer puts on the book. -/
def spent (ours : Int64 → Bool) (cmd : AddOrder) (remaining : Int64) : Int :=
  if 0 < remaining then 0 else mine ours cmd.orderId 1

theorem spent_nonneg (ours : Int64 → Bool) (cmd : AddOrder) (remaining : Int64) :
    0 ≤ spent ours cmd remaining := by
  unfold spent
  split
  · exact Int.le_refl 0
  · exact mine_nonneg (by omega)

@[simp] theorem spent_zero (ours : Int64 → Bool) (cmd : AddOrder) :
    spent ours cmd 0 = mine ours cmd.orderId 1 := rfl

/-- The walk takes at least as many orders off as it cancels, and an incoming
order it cancels has nothing left to rest. -/
theorem walk_standing (ours : Int64 → Bool) (cmd : AddOrder) (remaining : Int64) (queue : List Node) :
    sumOver (countIn ours) (walk cmd remaining queue).rest ≤ sumOver (countIn ours) queue +
      ((walk cmd remaining queue).steps.map fun step => standing ours (unnumbered (step.report cmd))).sum +
      spent ours cmd (walk cmd remaining queue).remaining := by
  induction queue generalizing remaining with
  | nil =>
    have owed := spent_nonneg ours cmd remaining
    simpa [walk] using owed
  | cons passive rest ih =>
    have counted : 0 ≤ countIn ours passive := mine_nonneg (by omega)
    have owed := spent_nonneg ours cmd 0
    simp only [walk]
    split
    · have left := spent_nonneg ours cmd remaining
      simp only [List.map_nil, List.sum_nil]
      omega
    · split
      · split
        · simp only [List.map_cons, List.map_nil, List.sum_cons, List.sum_nil, sumOver_cons,
            standing_cancelPassive, standing_cancelAggressor, spent_zero]
          omega
        · simp only [List.map_cons, List.map_nil, List.sum_cons, List.sum_nil, sumOver_cons,
            standing_cancelAggressor, spent_zero]
          omega
        · have kept := ih remaining
          simp only [Walk.after, List.map_cons, List.sum_cons, standing_cancelPassive, sumOver_cons]
          omega
      · split
        · have same : countIn ours { passive with remaining := passive.remaining - remaining } =
            countIn ours passive := rfl
          simp only [List.map_cons, List.map_nil, List.sum_cons, List.sum_nil, sumOver_cons,
            standing_fill]
          omega
        · have kept := ih (remaining - passive.remaining)
          simp only [Walk.after, List.map_cons, List.sum_cons, standing_fill, sumOver_cons]
          omega

/-- A walk leaves nothing overdrawn and at most what it started with. -/
theorem walk_remaining_bounds (cmd : AddOrder) {remaining : Int64} (nonneg : 0 ≤ remaining)
    {queue : List Node} (positive : ∀ order ∈ queue, 0 < order.remaining) :
    0 ≤ (walk cmd remaining queue).remaining ∧ (walk cmd remaining queue).remaining ≤ remaining := by
  induction queue generalizing remaining with
  | nil => exact ⟨nonneg, Int64.le_refl _⟩
  | cons passive rest ih =>
    have later := fun order member => positive order (List.mem_cons_of_mem passive member)
    have here := positive passive (by simp)
    simp only [walk]
    split
    · exact ⟨nonneg, Int64.le_refl _⟩
    · split
      · split
        · exact ⟨Int64.le_refl _, nonneg⟩
        · exact ⟨Int64.le_refl _, nonneg⟩
        · exact ih nonneg later
      · split
        · exact ⟨Int64.le_refl _, nonneg⟩
        · rename_i whole
          obtain ⟨left, less⟩ := sub_bounds here (not_lt.mp whole)
          obtain ⟨low, high⟩ := ih left later
          exact ⟨low, Int64.le_trans high less⟩

/-! ## Fill or kill -/

@[simp] theorem volume_nil : volume [] = 0 := rfl

@[simp] theorem volume_cons (order : Node) (orders : List Node) :
    volume (order :: orders) = order.remaining.toInt + volume orders := by
  simp [volume]

theorem volume_nonneg {orders : List Node} (positive : ∀ order ∈ orders, 0 < order.remaining) :
    0 ≤ volume orders := by
  induction orders with
  | nil => simp [volume]
  | cons order rest ih =>
    have here := positive order (by simp)
    rw [Int64.lt_iff_toInt_lt, Int64.toInt_zero] at here
    have later := ih fun other member => positive other (List.mem_cons_of_mem order member)
    simp only [volume, List.map_cons, List.sum_cons] at later ⊢
    omega

/-- A wrapping total of non-negative words is at most their sum. -/
theorem wrapped_total_le (orders : List Node) (positive : ∀ order ∈ orders, 0 < order.remaining)
    (total : Int64) :
    (orders.foldl (fun total order => total + order.remaining) total).toInt ≤
      total.toInt + volume orders := by
  induction orders generalizing total with
  | nil => simp [volume]
  | cons order rest ih =>
    have bound := ih (fun order member => positive order (List.mem_cons_of_mem _ member))
      (total + order.remaining)
    have here := positive order (by simp)
    rw [Int64.lt_iff_toInt_lt] at here
    have zero : (0 : Int64).toInt = 0 := rfl
    have low := total.le_toInt
    have step : (total + order.remaining).toInt ≤ total.toInt + order.remaining.toInt := by
      rw [Int64.toInt_add, Int.bmod_def]
      split <;> omega
    simp only [List.foldl_cons, volume, List.map_cons, List.sum_cons] at bound ⊢
    omega

/-- An order without self-trade prevention takes what is within its limit. -/
theorem walk_fills (plain : cmd.stp = .none) {remaining : Int64} {queue : List Node}
    (positive : ∀ order ∈ queue, 0 < order.remaining)
    (enough : remaining.toInt ≤
      volume (queue.takeWhile fun order => !priceStops cmd order.priceTicks)) :
    (walk cmd remaining queue).remaining ≤ 0 := by
  induction queue generalizing remaining with
  | nil =>
    rw [walk, Int64.le_iff_toInt_le]
    simpa [volume] using enough
  | cons passive rest ih =>
    have later := fun order member => positive order (List.mem_cons_of_mem passive member)
    simp only [walk, plain, ne_eq, not_true_eq_false, and_false, ↓reduceIte]
    split
    · rename_i stopped
      rcases stopped with done | stops
      · exact done
      · rw [Int64.le_iff_toInt_le]
        simpa [stops, volume] using enough
    · rename_i started
      split
      · exact Int64.le_refl 0
      · rename_i whole
        have open_ : priceStops cmd passive.priceTicks = false := by
          simpa using fun stops => started (Or.inr stops)
        refine ih later ?_
        rw [toInt_sub_of_le (positive passive (by simp)) (not_lt.mp whole)]
        simp only [List.takeWhile_cons, open_, Bool.not_false, ↓reduceIte, volume, List.map_cons,
          List.sum_cons] at enough ⊢
        omega

/-- A fill-or-kill order that passes the scan is filled. -/
theorem fok_filled (wf : WellFormed engine) (fok : cmd.timeInForce = .fok) (plain : cmd.stp = .none)
    (accepted : ¬ engine.refuses cmd) : (engine.walkOf cmd).remaining ≤ 0 := by
  have positive : ∀ order ∈ engine.resting cmd.symbol (opposite cmd.side), 0 < order.remaining := by
    intro order member
    exact (PriceLevels.level_of_mem_queue (wf.sides _ _) member).1.remaining
  refine walk_fills plain positive ?_
  have limit : (fun order : Node => !priceStops cmd order.priceTicks) =
      fun order => !beyond (opposite cmd.side) cmd.priceTicks order.priceTicks := by
    funext order
    simp [priceStops, fok]
  have scan : cmd.quantity ≤ availableVolume (engine.bookFor cmd.symbol) (opposite cmd.side)
      cmd.priceTicks := not_lt.mp fun short => accepted ⟨fok, short⟩
  rw [PriceLevels.availableVolume_eq _ (wf.sides _ _), Int64.le_iff_toInt_le] at scan
  rw [limit]
  have total := wrapped_total_le ((engine.resting cmd.symbol (opposite cmd.side)).takeWhile fun order =>
      !beyond (opposite cmd.side) cmd.priceTicks order.priceTicks)
    (fun order member => positive order (List.takeWhile_subset _ member)) 0
  rw [Int64.toInt_zero, Int.zero_add] at total
  exact Int.le_trans scan total

/-! ## What one command books -/

/-- A statement's sum over a list of events. -/
def tally (f : ExecEvent → Int) (events : List ExecEvent) : Int := (events.map f).sum

@[simp] theorem tally_append (f : ExecEvent → Int) (first second : List ExecEvent) :
    tally f (first ++ second) = tally f first + tally f second := by
  simp [tally]

theorem tally_numbered_net (symbol : Bytes) (sequence : Int) (reports : List (EventType × Payload)) :
    tally (net ours) (numbered symbol sequence reports) =
      (reports.map fun report => net ours (unnumbered report)).sum :=
  sum_numbered (net_blind ours) symbol sequence reports

theorem tally_numbered_standing (symbol : Bytes) (sequence : Int)
    (reports : List (EventType × Payload)) :
    tally (standing ours) (numbered symbol sequence reports) =
      (reports.map fun report => standing ours (unnumbered report)).sum :=
  sum_numbered (standing_blind ours) symbol sequence reports

/-- Accepted and Cancelled events name an order, and an Executed event names an
order accepted with it and one that was resting before. -/
structure Names (engine : MatchingEngine) (events : List ExecEvent) (event : ExecEvent) : Prop where
  accepted : event.type = .accepted → ∃ orderId, payloadInt event.payload .orderId = some orderId
  cancelled : event.type = .cancelled → ∃ orderId, payloadInt event.payload .orderId = some orderId
  executed : event.type = .executed → ∃ aggressive passive,
    payloadInt event.payload .aggressiveOrderId = some aggressive ∧
    payloadInt event.payload .passiveOrderId = some passive ∧
    aggressive ∈ acceptedIds events ∧ ∃ order ∈ engine.orders, order.orderId = passive

/-- The events account for the change of the resting orders. -/
structure Booked (engine : MatchingEngine) (events : List ExecEvent) (next : MatchingEngine) : Prop where
  volume : ∀ ours, sumOver (volumeIn ours) next.orders =
    sumOver (volumeIn ours) engine.orders + tally (net ours) events
  count : ∀ ours, sumOver (countIn ours) next.orders ≤
    sumOver (countIn ours) engine.orders + tally (standing ours) events
  names : ∀ event ∈ events, Names engine events event

theorem sumOver_congr {weight : Node → Int}
    (levels : ∀ symbol side, next.levels symbol side = engine.levels symbol side) :
    sumOver weight next.orders = sumOver weight engine.orders := by
  have same := sumOver_change weight [] .buy (fun symbol side _ => levels symbol side)
  simpa [MatchingEngine.resting, levels] using same

theorem rejected_booked {symbol : Bytes} {orderId : Int64} {reason : Bytes}
    (levels : ∀ symbol side, next.levels symbol side = engine.levels symbol side) :
    Booked engine (numbered symbol engine.sequence [(.rejected, [(.orderId, .int orderId),
      (.reason, .str reason)])]) next where
  volume ours := by
    rw [sumOver_congr levels, tally_numbered_net]
    simp [net, unnumbered]
  count ours := by
    rw [sumOver_congr levels, tally_numbered_standing]
    simp [standing, unnumbered]
  names event member := by
    rw [numbered, numbered, List.mem_singleton] at member
    subst member
    exact ⟨by simp, by simp, by simp⟩

/-- A remainder rests, or is cancelled, or is nothing. -/
theorem remainder_settled {remaining : Int64} (midWf : WellFormed mid) (cmd : AddOrder)
    (nonneg : 0 ≤ remaining)
    (filled : cmd.timeInForce = .fok → remaining ≤ 0) :
    (0 < remaining ∧
      closing cmd remaining = [(.rested, [(.orderId, .int cmd.orderId), (.remaining, .int remaining)])] ∧
      ∀ weight : Node → Int, sumOver weight (settled mid cmd remaining).orders =
        sumOver weight mid.orders + weight (restingNode mid cmd remaining)) ∨
    (0 < remaining ∧
      closing cmd remaining = [(.cancelled, [(.orderId, .int cmd.orderId), (.remaining, .int remaining)])] ∧
      ∀ weight : Node → Int, sumOver weight (settled mid cmd remaining).orders =
        sumOver weight mid.orders) ∨
    (remaining = 0 ∧ closing cmd remaining = [] ∧
      ∀ weight : Node → Int, sumOver weight (settled mid cmd remaining).orders =
        sumOver weight mid.orders) := by
  have unrested : ¬ rests cmd remaining → ∀ weight : Node → Int,
      sumOver weight (settled mid cmd remaining).orders = sumOver weight mid.orders := by
    intro unrested weight
    rw [settled, if_neg unrested]
    rfl
  by_cases more : 0 < remaining
  · cases tif : cmd.timeInForce with
    | gtc =>
      refine Or.inl ⟨more, by simp [closing, more, tif], fun weight => ?_⟩
      have inserted := restOrder_inserted (midWf.sides cmd.symbol cmd.side) more
      obtain ⟨ahead, behind, before, after, -, -⟩ := inserted.queue
      have change := sumOver_change weight _ _ inserted.elsewhere
      rw [before, after] at change
      rw [settled, if_pos ⟨more, tif⟩]
      simp only [sumOver_append, sumOver_cons] at change
      change sumOver weight (mid.restOrder cmd remaining).orders = _
      omega
    | ioc => exact Or.inr (Or.inl ⟨more, by simp [closing, more, tif], unrested (by simp [rests, tif])⟩)
    | market =>
      exact Or.inr (Or.inl ⟨more, by simp [closing, more, tif], unrested (by simp [rests, tif])⟩)
    | fok => exact absurd more (not_lt.mpr (filled tif))
  · have nothing : remaining = 0 := le_antisymm (not_lt.mp more) nonneg
    exact Or.inr (Or.inr ⟨nothing, by simp [closing, more], unrested fun resting => more resting.1⟩)

theorem closing_names {remaining : Int64} {report : EventType × Payload}
    (member : report ∈ closing cmd remaining) :
    report.1 ≠ .accepted ∧ report.1 ≠ .executed ∧ payloadInt report.2 .orderId = some cmd.orderId := by
  unfold closing at member
  split at member
  · split at member
    · rw [List.mem_singleton.mp member]
      exact ⟨by simp, by simp, rfl⟩
    · rw [List.mem_singleton.mp member]
      exact ⟨by simp, by simp, rfl⟩
    · rw [List.mem_singleton.mp member]
      exact ⟨by simp, by simp, rfl⟩
    · cases member
  · cases member

theorem addReports_names (engine : MatchingEngine) (cmd : AddOrder) (sequence : Int) :
    ∀ event ∈ numbered cmd.symbol sequence (addReports cmd (engine.walkOf cmd)),
      Names engine (numbered cmd.symbol sequence (addReports cmd (engine.walkOf cmd))) event := by
  intro event member
  have ours : cmd.orderId ∈
      acceptedIds (numbered cmd.symbol sequence (addReports cmd (engine.walkOf cmd))) := by
    simp [acceptedIds, ofType, addReports, numbered, payloadInt, List.lookup]
  obtain ⟨-, reported⟩ := mem_numbered member
  obtain ⟨number, type, symbol, payload⟩ := event
  simp only [addReports, List.mem_cons, List.mem_append, List.mem_map] at reported
  rcases reported with first | ⟨step, taken, shape⟩ | last
  · obtain ⟨rfl, rfl⟩ := Prod.mk.inj first
    exact ⟨fun _ => ⟨cmd.orderId, rfl⟩, by simp, by simp⟩
  · cases step with
    | fill passive qty =>
      obtain ⟨rfl, rfl⟩ := Prod.mk.inj shape
      refine ⟨by simp, by simp, fun _ => ⟨cmd.orderId, passive.orderId, rfl, rfl, ours, passive, ?_, rfl⟩⟩
      exact mem_orders.mpr ⟨_, _, MatchWalk.walk_acts_on_queue taken rfl⟩
    | cancelPassive passive =>
      obtain ⟨rfl, rfl⟩ := Prod.mk.inj shape
      exact ⟨by simp, fun _ => ⟨passive.orderId, rfl⟩, by simp⟩
    | cancelAggressor remaining =>
      obtain ⟨rfl, rfl⟩ := Prod.mk.inj shape
      exact ⟨by simp, fun _ => ⟨cmd.orderId, rfl⟩, by simp⟩
  · obtain ⟨notAccepted, notExecuted, named⟩ := closing_names last
    exact ⟨fun accepted => absurd accepted notAccepted, fun _ => ⟨cmd.orderId, named⟩,
      fun executed => absurd executed notExecuted⟩

theorem net_rested (orderId remaining : Int64) :
    net ours (unnumbered (.rested, [(.orderId, .int orderId), (.remaining, .int remaining)])) = 0 := rfl

theorem net_cancelled (orderId remaining : Int64) :
    net ours (unnumbered (.cancelled, [(.orderId, .int orderId), (.remaining, .int remaining)])) =
      -mine ours orderId remaining.toInt := rfl

theorem standing_rested (orderId remaining : Int64) :
    standing ours (unnumbered (.rested, [(.orderId, .int orderId), (.remaining, .int remaining)])) = 0 :=
  rfl

theorem standing_cancelled (orderId remaining : Int64) :
    standing ours (unnumbered (.cancelled, [(.orderId, .int orderId), (.remaining, .int remaining)])) =
      -mine ours orderId 1 := rfl

theorem volumeIn_restingNode (remaining : Int64) :
    volumeIn ours (restingNode mid cmd remaining) = mine ours cmd.orderId remaining.toInt := rfl

theorem countIn_restingNode (remaining : Int64) :
    countIn ours (restingNode mid cmd remaining) = mine ours cmd.orderId 1 := rfl

theorem addReports_net (cmd : AddOrder) (walk : Walk) :
    ((addReports cmd walk).map fun report => net ours (unnumbered report)).sum =
      mine ours cmd.orderId cmd.quantity.toInt +
        (walk.steps.map fun step => net ours (unnumbered (step.report cmd))).sum +
        ((closing cmd walk.remaining).map fun report => net ours (unnumbered report)).sum := by
  have accepted : net ours (unnumbered (.accepted, [(.orderId, .int cmd.orderId),
    (.qty, .int cmd.quantity)])) = mine ours cmd.orderId cmd.quantity.toInt := rfl
  simp only [addReports, List.map_cons, List.map_append, List.map_map, List.sum_cons, List.sum_append,
    accepted, Function.comp_def]
  omega

theorem addReports_standing (cmd : AddOrder) (walk : Walk) :
    ((addReports cmd walk).map fun report => standing ours (unnumbered report)).sum =
      mine ours cmd.orderId 1 +
        (walk.steps.map fun step => standing ours (unnumbered (step.report cmd))).sum +
        ((closing cmd walk.remaining).map fun report => standing ours (unnumbered report)).sum := by
  have accepted : standing ours (unnumbered (.accepted, [(.orderId, .int cmd.orderId),
    (.qty, .int cmd.quantity)])) = mine ours cmd.orderId 1 := rfl
  simp only [addReports, List.map_cons, List.map_append, List.map_map, List.sum_cons, List.sum_append,
    accepted, Function.comp_def]
  omega

theorem removed_booked {loc : Location} {order : Node} {orderId : Int64}
    (taken : TakenOut engine orderId loc order next) (symbol : Bytes) :
    Booked engine (numbered symbol engine.sequence [(.cancelled, [(.orderId, .int orderId),
      (.remaining, .int order.remaining)])]) next := by
  obtain ⟨ahead, behind, whole, left⟩ := taken.removed.queue
  have change : ∀ weight : Node → Int, sumOver weight next.orders =
      sumOver weight engine.orders - weight order := by
    intro weight
    rw [sumOver_change weight order.symbol order.side taken.removed.elsewhere, whole, left]
    simp only [sumOver_append, sumOver_cons]
    omega
  refine ⟨fun ours => ?_, fun ours => ?_, fun event member => ?_⟩
  · rw [change, tally_numbered_net, List.map_singleton, List.sum_singleton, net_cancelled, volumeIn,
      taken.named]
    omega
  · rw [change, tally_numbered_standing, List.map_singleton, List.sum_singleton, standing_cancelled,
      countIn, taken.named]
    omega
  · rw [numbered, numbered, List.mem_singleton] at member
    subst member
    exact ⟨by simp, fun _ => ⟨orderId, rfl⟩, by simp⟩

/-- The events of an accepted add book its fills, its cancellations and its rest. -/
theorem settled_booked (wf : WellFormed engine) (matched : Matched engine cmd mid)
    (accepted : ¬ engine.refuses cmd) (positive : 0 < cmd.quantity)
    (plain : cmd.timeInForce = .fok → cmd.stp = .none) :
    Booked engine (numbered cmd.symbol engine.sequence (addReports cmd (engine.walkOf cmd)))
      (settled mid cmd (engine.walkOf cmd).remaining) := by
  have held : ∀ order ∈ engine.resting cmd.symbol (opposite cmd.side), 0 < order.remaining := by
    intro order member
    exact (PriceLevels.level_of_mem_queue (wf.sides _ _) member).1.remaining
  have nonneg : 0 ≤ (engine.walkOf cmd).remaining := (walk_remaining_bounds cmd positive.le held).1
  have walked : ∀ weight : Node → Int, sumOver weight mid.orders = sumOver weight engine.orders +
      (sumOver weight (engine.walkOf cmd).rest -
        sumOver weight (engine.resting cmd.symbol (opposite cmd.side))) := by
    intro weight
    rw [sumOver_change weight cmd.symbol (opposite cmd.side) matched.elsewhere, matched.rest]
  have settling := remainder_settled (matched_wellFormed wf matched) cmd nonneg
    (fun fok => fok_filled wf fok (plain fok) accepted)
  refine ⟨fun ours => ?_, fun ours => ?_, addReports_names engine cmd engine.sequence⟩
  · have moved := walk_net ours cmd cmd.quantity held
    have change := walked (volumeIn ours)
    rw [tally_numbered_net, addReports_net]
    unfold MatchingEngine.walkOf at settling change ⊢
    rcases settling with ⟨-, closed, same⟩ | ⟨-, closed, same⟩ | ⟨zero, closed, same⟩
    · rw [same, closed, volumeIn_restingNode, List.map_singleton, List.sum_singleton, net_rested]
      omega
    · rw [same, closed, List.map_singleton, List.sum_singleton, net_cancelled]
      omega
    · rw [zero, Int64.toInt_zero, mine_zero] at moved
      rw [same, closed, List.map_nil, List.sum_nil]
      omega
  · have moved := walk_standing ours cmd cmd.quantity
      (engine.resting cmd.symbol (opposite cmd.side))
    have change := walked (countIn ours)
    rw [tally_numbered_standing, addReports_standing]
    unfold MatchingEngine.walkOf at settling change ⊢
    rcases settling with ⟨more, closed, same⟩ | ⟨more, closed, same⟩ | ⟨zero, closed, same⟩
    · rw [spent, if_pos more] at moved
      rw [same, closed, countIn_restingNode, List.map_singleton, List.sum_singleton, standing_rested]
      omega
    · rw [spent, if_pos more] at moved
      rw [same, closed, List.map_singleton, List.sum_singleton, standing_cancelled]
      omega
    · rw [zero, spent_zero] at moved
      rw [same, closed, List.map_nil, List.sum_nil]
      omega

theorem add_booked (wf : WellFormed engine) (positive : 0 < cmd.quantity)
    (plain : cmd.timeInForce = .fok → cmd.stp = .none) {outcome : Outcome}
    (ran : engine.add cmd = .ok (next, outcome)) : Booked engine outcome.events next := by
  cases added_of_ran wf ran with
  | refused refuses =>
    exact rejected_booked fun symbol side => levels_open engine cmd.symbol symbol side
  | accepted accepts mid matched =>
    exact settled_booked wf matched accepts positive plain

/-! ## Trades and Executed events -/

theorem executed_numbered (symbol : Bytes) (sequence : Int) (reports : List (EventType × Payload)) :
    (ofType .executed (numbered symbol sequence reports)).map ExecEvent.payload =
      (reports.filter fun report => report.1 = .executed).map Prod.snd := by
  induction reports generalizing sequence with
  | nil => rfl
  | cons report rest ih =>
    have later := ih (sequence + 1)
    unfold ofType at later ⊢
    by_cases executed : report.1 = .executed <;> simp [numbered, executed, later]

theorem steps_executed (cmd : AddOrder) (steps : List Step) :
    (steps.filterMap (Step.trade cmd)).map terms =
      ((steps.map (Step.report cmd)).filter fun report => report.1 = .executed).map Prod.snd := by
  induction steps with
  | nil => rfl
  | cons step rest ih =>
    cases step <;> simp [List.filterMap_cons, Step.trade, Step.report, ih, terms, tradeOf]

theorem add_trades (wf : WellFormed engine) {outcome : Outcome}
    (ran : engine.add cmd = .ok (next, outcome)) :
    outcome.trades.map terms = (ofType .executed outcome.events).map ExecEvent.payload := by
  cases added_of_ran wf ran with
  | refused refuses =>
    rw [executed_numbered]
    simp
  | accepted accepts mid matched =>
    have closed : (closing cmd (engine.walkOf cmd).remaining).filter
        (fun report => report.1 = .executed) = [] := by
      rw [List.filter_eq_nil_iff]
      intro report member
      simpa using (closing_names member).2.1
    rw [executed_numbered, steps_executed, addReports]
    simp [closed]

/-- Every command's trades and Executed events say the same, one by one. -/
theorem apply_trades (wf : WellFormed engine) {command : Command} {outcome : Outcome}
    (ran : engine.apply command = .ok (next, outcome)) :
    outcome.trades.map terms = (ofType .executed outcome.events).map ExecEvent.payload := by
  cases applied_of_ran wf ran with
  | add cmd ran => exact add_trades wf ran
  | cancelUnknown cmd missing =>
    rw [executed_numbered]
    simp
  | cancelKnown cmd loc order entry taken =>
    rw [executed_numbered]
    simp
  | replaceUnknown cmd missing =>
    rw [executed_numbered]
    simp
  | replaceKnown cmd loc order mid added entry taken ranAdd =>
    have first := executed_numbered cmd.symbol engine.sequence [(.cancelled,
      [(.orderId, .int cmd.orderId), (.remaining, .int order.remaining)])]
    unfold ofType at first ⊢
    rw [List.filter_append, List.map_append, first, add_trades taken.wellFormed ranAdd]
    simp [ofType]

/-! ## The ledger of a run -/

/-- The events so far account for what rests, and no Executed event names one
order on both sides unless an id was accepted twice. -/
structure Ledger (engine : MatchingEngine) (events : List ExecEvent) : Prop where
  volume : ∀ ours, sumOver (volumeIn ours) engine.orders = tally (net ours) events
  count : ∀ ours, sumOver (countIn ours) engine.orders ≤ tally (standing ours) events
  accepted : ∀ event ∈ ofType .accepted events, ∃ orderId,
    payloadInt event.payload .orderId = some orderId
  cancelled : ∀ event ∈ ofType .cancelled events, ∃ orderId,
    payloadInt event.payload .orderId = some orderId
  executed : (acceptedIds events).Nodup → ∀ event ∈ ofType .executed events, ∃ aggressive passive,
    payloadInt event.payload .aggressiveOrderId = some aggressive ∧
    payloadInt event.payload .passiveOrderId = some passive ∧ aggressive ≠ passive

theorem ledger_empty : Ledger {} [] := by
  constructor <;> simp [ofType, tally, MatchingEngine.orders, sumOver]

/-- One order's count: how often it was accepted, less how often cancelled. -/
theorem tally_standing (orderId : Int64) (events : List ExecEvent) :
    tally (standing (· = orderId)) events =
      ((acceptedIds events).count orderId : Int) - ((cancellations orderId events).length : Int) := by
  induction events with
  | nil => rfl
  | cons event rest ih =>
    have first : tally (standing (· = orderId)) (event :: rest) =
        standing (· = orderId) event + tally (standing (· = orderId)) rest := by simp [tally]
    rw [first, ih]
    cases type : event.type <;> cases named : payloadInt event.payload .orderId with
    | none => simp [standing, type, once, named, acceptedIds, ofType, cancellations, names]
    | some other =>
      by_cases same : other = orderId <;>
        simp [standing, type, once, named, acceptedIds, ofType, cancellations, names, mine, same] <;> omega

theorem sumOver_count_nonneg (ours : Int64 → Bool) (orders : List Node) :
    0 ≤ sumOver (countIn ours) orders := by
  induction orders with
  | nil => simp
  | cons order rest ih =>
    have one : 0 ≤ countIn ours order := mine_nonneg (by omega)
    rw [sumOver_cons]
    omega

theorem ledger_append {events later : List ExecEvent} (ledger : Ledger engine events)
    (booked : Booked engine later next) : Ledger next (events ++ later) := by
  have split : ∀ type, ofType type (events ++ later) = ofType type events ++ ofType type later := by
    intro type
    simp [ofType]
  refine ⟨fun ours => ?_, fun ours => ?_, fun event member => ?_, fun event member => ?_,
    fun unique event member => ?_⟩
  · rw [booked.volume, ledger.volume, tally_append]
  · have before := ledger.count ours
    have change := booked.count ours
    rw [tally_append]
    omega
  · rw [split, List.mem_append] at member
    rcases member with old | new
    · exact ledger.accepted event old
    · obtain ⟨inside, type⟩ := List.mem_filter.mp new
      exact (booked.names event inside).accepted (by simpa using type)
  · rw [split, List.mem_append] at member
    rcases member with old | new
    · exact ledger.cancelled event old
    · obtain ⟨inside, type⟩ := List.mem_filter.mp new
      exact (booked.names event inside).cancelled (by simpa using type)
  · rw [acceptedIds, split, List.filterMap_append, List.nodup_append] at unique
    rw [split, List.mem_append] at member
    rcases member with old | new
    · exact ledger.executed unique.1 event old
    · obtain ⟨inside, type⟩ := List.mem_filter.mp new
      obtain ⟨aggressive, passive, first, second, incoming, order, resting, rfl⟩ :=
        (booked.names event inside).executed (by simpa using type)
      refine ⟨aggressive, order.orderId, first, second, fun same => ?_⟩
      -- The passive order rested before, so its id was accepted before.
      have counted : 0 < sumOver (countIn (· = order.orderId)) engine.orders := by
        obtain ⟨ahead, behind, shape⟩ := List.append_of_mem resting
        have ours : countIn (· = order.orderId) order = 1 := by simp [countIn, mine]
        have front := sumOver_count_nonneg (· = order.orderId) ahead
        have back := sumOver_count_nonneg (· = order.orderId) behind
        rw [shape, sumOver_append, sumOver_cons, ours]
        omega
      have bound := ledger.count (· = order.orderId)
      rw [tally_standing] at bound
      have before : order.orderId ∈ acceptedIds events :=
        List.count_pos_iff.mp (by omega)
      exact unique.2.2 _ before _ incoming same.symm

/-- One command extends the ledger by its events. -/
theorem apply_ledger {events : List ExecEvent} (wf : WellFormed engine) (ledger : Ledger engine events)
    {command : Command} (regular : Regular command) {outcome : Outcome}
    (ran : engine.apply command = .ok (next, outcome)) : Ledger next (events ++ outcome.events) := by
  cases applied_of_ran wf ran with
  | add cmd ran => exact ledger_append ledger (add_booked wf regular.1 regular.2 ran)
  | cancelUnknown cmd missing => exact ledger_append ledger (rejected_booked fun _ _ => rfl)
  | cancelKnown cmd loc order entry taken => exact ledger_append ledger (removed_booked taken cmd.symbol)
  | replaceUnknown cmd missing => exact ledger_append ledger (rejected_booked fun _ _ => rfl)
  | replaceKnown cmd loc order mid added entry taken ranAdd =>
    -- A replace books its cancel first and its add, which has no self-trade prevention, second.
    have positive : 0 < (MatchingEngine.replacementOrder cmd order.participantId loc.side).quantity :=
      regular
    have out := ledger_append ledger (removed_booked taken cmd.symbol)
    have back := ledger_append out (add_booked taken.wellFormed positive (fun _ => rfl) ranAdd)
    rw [List.append_assoc] at back
    exact back

/-! ## Reading the accounts off the ledger -/

/-- The net effect of events, kind by kind. -/
theorem tally_net (ours : Int64 → Bool) (events : List ExecEvent) :
    tally (net ours) events =
      ((ofType .accepted events).map (share ours .orderId .qty)).sum -
        ((ofType .executed events).map fun event =>
          share ours .aggressiveOrderId .qty event + share ours .passiveOrderId .qty event).sum -
        ((ofType .cancelled events).map (share ours .orderId .remaining)).sum := by
  induction events with
  | nil => rfl
  | cons event rest ih =>
    have first : tally (net ours) (event :: rest) = net ours event + tally (net ours) rest := by
      simp [tally]
    rw [first, ih]
    cases type : event.type <;> simp [net, type, ofType] <;> omega

theorem sum_filter {α : Type} (keep : α → Bool) (f : α → Int) (list : List α) :
    ((list.filter keep).map f).sum = (list.map fun item => if keep item then f item else 0).sum := by
  induction list with
  | nil => rfl
  | cons item rest ih => by_cases kept : keep item = true <;> simp [kept, ih]

/-- An id accepted once contributes the quantity of its one Accepted event. -/
theorem accepted_once {events : List ExecEvent} {orderId : Int64}
    (unique : (events.filterMap fun event => payloadInt event.payload .orderId).Nodup)
    {event : ExecEvent} (member : event ∈ events) (named : payloadInt event.payload .orderId = some orderId) :
    (events.map (share (· = orderId) .orderId .qty)).sum = amount .qty event := by
  have own : share (· = orderId) .orderId .qty event = amount .qty event := by
    simp [share, named, mine]
  have others : ∀ list : List ExecEvent,
      orderId ∉ list.filterMap (fun event => payloadInt event.payload .orderId) →
      (list.map (share (· = orderId) .orderId .qty)).sum = 0 := by
    intro list absent
    refine List.sum_eq_zero fun value inside => ?_
    obtain ⟨other, held, rfl⟩ := List.mem_map.mp inside
    cases others : payloadInt other.payload .orderId with
    | none => simp [share, others]
    | some otherId =>
      have different : otherId ≠ orderId := by
        rintro rfl
        exact absent (List.mem_filterMap.mpr ⟨other, held, others⟩)
      simp [share, others, mine, different]
  obtain ⟨before, after, rfl⟩ := List.append_of_mem member
  rw [List.filterMap_append, List.filterMap_cons, named] at unique
  rw [List.nodup_middle, List.nodup_cons, List.mem_append, not_or] at unique
  rw [List.map_append, List.map_cons, List.sum_append, List.sum_cons, own, others before unique.1.1,
    others after unique.1.2]
  omega

/-- An event that names two different orders counts once for each of them. -/
theorem executed_shares {events : List ExecEvent} (orderId : Int64)
    (apart : ∀ event ∈ ofType .executed events, ∃ aggressive passive,
      payloadInt event.payload .aggressiveOrderId = some aggressive ∧
      payloadInt event.payload .passiveOrderId = some passive ∧ aggressive ≠ passive) :
    ((ofType .executed events).map fun event => share (· = orderId) .aggressiveOrderId .qty event +
      share (· = orderId) .passiveOrderId .qty event).sum = executedQty orderId events := by
  rw [executedQty, sum_filter]
  congr 1
  refine List.map_congr_left fun event member => ?_
  obtain ⟨aggressive, passive, first, second, different⟩ := apart event member
  by_cases agg : aggressive = orderId
  · have pass : passive ≠ orderId := fun same => different (agg.trans same.symm)
    simp [share, names, first, second, mine, agg, pass]
  · simp [share, names, first, second, mine, agg]

theorem cancelled_shares (orderId : Int64) (events : List ExecEvent) :
    ((ofType .cancelled events).map (share (· = orderId) .orderId .remaining)).sum =
      ((cancellations orderId events).map (amount .remaining)).sum := by
  rw [cancellations, sum_filter]
  congr 1
  refine List.map_congr_left fun event _ => ?_
  cases named : payloadInt event.payload .orderId <;> simp [share, names, named, mine]

theorem sumOver_restingUnder (orderId : Int64) (engine : MatchingEngine) :
    sumOver (volumeIn (· = orderId)) engine.orders = volume (restingUnder orderId engine) ∧
      sumOver (countIn (· = orderId)) engine.orders = ((restingUnder orderId engine).length : Int) := by
  unfold restingUnder volume
  generalize engine.orders = orders
  induction orders with
  | nil => exact ⟨rfl, rfl⟩
  | cons order rest ih =>
    by_cases same : order.orderId = orderId
    · simp only [sumOver_cons, ih.1, ih.2, List.filter_cons, same, decide_true, ↓reduceIte,
        List.map_cons, List.sum_cons, List.length_cons]
      simp [volumeIn, countIn, mine, same]
      omega
    · simpa [volumeIn, countIn, mine, same] using ih

theorem sumOver_all (orders : List Node) : sumOver (volumeIn fun _ => true) orders = volume orders := by
  have every : volumeIn (fun _ => true) = fun order => order.remaining.toInt := by
    funext order
    simp [volumeIn, mine]
  rw [sumOver, volume, every]

/-- A ledger whose ids are distinct is balanced order by order. -/
theorem ledger_balanced {outcomes : List Outcome} (ledger : Ledger engine (outcomes.flatMap Outcome.events))
    (unique : (acceptedIds (outcomes.flatMap Outcome.events)).Nodup)
    (trades : ∀ outcome ∈ outcomes,
      outcome.trades.map terms = (ofType .executed outcome.events).map ExecEvent.payload) :
    Balanced engine outcomes := by
  have counts : ∀ orderId, (cancellations orderId (outcomes.flatMap Outcome.events)).length +
      (restingUnder orderId engine).length ≤ 1 := by
    intro orderId
    have bound := ledger.count (· = orderId)
    have accepted := List.nodup_iff_count_le_one.mp unique orderId
    rw [tally_standing, (sumOver_restingUnder orderId engine).2] at bound
    omega
  constructor
  · intro event member orderId quantity named amounts
    have settled := ledger.volume (· = orderId)
    rw [tally_net, accepted_once unique member named, executed_shares orderId (ledger.executed unique),
      cancelled_shares, (sumOver_restingUnder orderId engine).1] at settled
    have value : amount .qty event = quantity.toInt := by simp [amount, amounts]
    omega
  · intro orderId
    have bound := counts orderId
    omega
  · intro orderId
    have bound := counts orderId
    omega
  · exact trades
  · have settled := ledger.volume fun _ => true
    have accepted : (ofType .accepted (outcomes.flatMap Outcome.events)).map
        (share (fun _ => true) .orderId .qty) =
          (ofType .accepted (outcomes.flatMap Outcome.events)).map (amount .qty) := by
      refine List.map_congr_left fun event member => ?_
      obtain ⟨orderId, named⟩ := ledger.accepted event member
      simp [share, named, mine]
    have cancelled : (ofType .cancelled (outcomes.flatMap Outcome.events)).map
        (share (fun _ => true) .orderId .remaining) =
          (ofType .cancelled (outcomes.flatMap Outcome.events)).map (amount .remaining) := by
      refine List.map_congr_left fun event member => ?_
      obtain ⟨orderId, named⟩ := ledger.cancelled event member
      simp [share, named, mine]
    have executed : (ofType .executed (outcomes.flatMap Outcome.events)).map (fun event =>
          share (fun _ => true) .aggressiveOrderId .qty event +
            share (fun _ => true) .passiveOrderId .qty event) =
        (ofType .executed (outcomes.flatMap Outcome.events)).map fun event =>
          amount .qty event + amount .qty event := by
      refine List.map_congr_left fun event member => ?_
      obtain ⟨aggressive, passive, first, second, -⟩ := ledger.executed unique event member
      simp [share, first, second, mine]
    rw [tally_net, accepted, cancelled, executed, sumOver_all, List.sum_map_add] at settled
    omega

/-- Every run with positive quantities, plain fill-or-kill orders and no id
accepted twice keeps every order's account and the totals balanced. -/
theorem every_run_is_balanced (commands : List Command) (regular : ∀ command ∈ commands, Regular command) :
    ∃ engine outcomes, run MatchingEngine.apply {} commands = .ok (engine, outcomes) ∧
      ((acceptedIds (outcomes.flatMap Outcome.events)).Nodup → Balanced engine outcomes) := by
  obtain ⟨engine, outcomes, ran, held⟩ := Runs.run_history (fun _ command => Regular command)
    (fun engine outcomes => WellFormed engine ∧ Ledger engine (outcomes.flatMap Outcome.events) ∧
      ∀ outcome ∈ outcomes,
        outcome.trades.map terms = (ofType .executed outcome.events).map ExecEvent.payload)
    (fun engine outcomes command held guard => by
      obtain ⟨wf, ledger, trades⟩ := held
      obtain ⟨next, outcome, ran, nextWf⟩ := apply_wellFormed wf command
      refine ⟨next, outcome, ran, nextWf, ?_, ?_⟩
      · simpa using apply_ledger wf ledger guard ran
      · intro each member
        rcases List.mem_append.mp member with old | new
        · exact trades each old
        · rw [List.mem_singleton.mp new]
          exact apply_trades wf ran)
    [] ⟨wellFormed_empty, ledger_empty, by simp⟩
    (Runs.meets_of_mem regular)
  exact ⟨engine, outcomes, ran, fun unique => ledger_balanced held.2.1 unique held.2.2⟩

/-- An ask, a bid that takes it and rests, and the replace of the rest. -/
def crossing : List Command :=
  [.add
      { symbol := ascii "S", orderId := 1, participantId := ascii "A", side := .sell, priceTicks := 100,
        quantity := 5 },
    .add { symbol := ascii "S", orderId := 2, participantId := ascii "B", priceTicks := 101, quantity := 8 },
    .replace { symbol := ascii "S", orderId := 2, newOrderId := 3, newPriceTicks := 99, newQuantity := 2 }]

theorem crossing_is_balanced :
    ∃ engine outcomes, run MatchingEngine.apply {} crossing = .ok (engine, outcomes) ∧
      Balanced engine outcomes := by
  obtain ⟨engine, outcomes, ran, balanced⟩ := every_run_is_balanced crossing (by decide)
  have known : (run MatchingEngine.apply {} crossing).map
      (fun result => acceptedIds (result.2.flatMap Outcome.events)) = .ok [1, 2, 3] := by decide
  rw [ran] at known
  have ids : acceptedIds (outcomes.flatMap Outcome.events) = [1, 2, 3] := Except.ok.inj known
  exact ⟨engine, outcomes, ran, balanced (by rw [ids]; decide)⟩

end Exchange.VolumeLedger
