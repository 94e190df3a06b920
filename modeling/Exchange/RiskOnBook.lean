import Exchange.ShardedSteps
import Exchange.VolumeLedger

/-! The default risk limits, seen on the books. An add is checked before it
reaches its engine, and what is left of it after matching stays within the
limits. A replace is not checked: its new order is submitted as it is, so the
limits hold on the books exactly as long as the remainders that replaces leave
resting keep them by themselves. -/
namespace Exchange.RiskOnBook
open EngineSteps EngineInvariant VolumeLedger ShardedSteps
open ShardedMatchingEngine (shardOf)

/-- The limits of a default-constructed `RiskLimits`. -/
def defaultLimits : RiskLimits := {}

/-- A price and a quantity within the default limits; the notional value is a
product of integers and does not wrap. -/
structure Allowed (price : Int64) (remaining : Int) : Prop where
  lowest : defaultLimits.minPriceTicks ≤ price
  highest : price ≤ defaultLimits.maxPriceTicks
  positive : 0 < remaining
  quantity : remaining ≤ defaultLimits.maxOrderQuantity.toInt
  notional : price.toInt * remaining ≤ defaultLimits.maxNotionalTicks.toInt

/-- Every resting order is within the limits. -/
def WithinLimits (engine : MatchingEngine) : Prop :=
  ∀ symbol side, ∀ order ∈ engine.resting symbol side, Allowed order.priceTicks order.remaining.toInt

/-- What rests opposite to an order, up to its limit price. -/
def offered (engine : MatchingEngine) (symbol : Bytes) (side : Side) (price : Int64) : Int :=
  volume ((engine.resting symbol (opposite side)).takeWhile fun order =>
    !beyond (opposite side) price order.priceTicks)

/-- What a replace leaves resting, its quantity less what the opposite side
offers, is within the limits. -/
def RestsAllowed (engine : MatchingEngine) : Command → Prop
  | .replace cmd => ∀ loc, engine.index.lookup cmd.orderId = some loc → cmd.timeInForce = .gtc →
      0 < cmd.newQuantity.toInt - offered engine cmd.symbol loc.side cmd.newPriceTicks →
      Allowed cmd.newPriceTicks (cmd.newQuantity.toInt - offered engine cmd.symbol loc.side cmd.newPriceTicks)
  | .add _ => True
  | .cancel _ => True

variable {engine mid next : MatchingEngine} {cmd : AddOrder} {order : Node} {outcome : Outcome}

/-! ## Walks -/

/-- Without self-trade prevention a walk takes all that is within its limit, as
far as its quantity goes. -/
theorem walk_remaining_eq (plain : cmd.stp = .none) {remaining : Int64} (nonneg : 0 ≤ remaining)
    {queue : List Node} (positive : ∀ order ∈ queue, 0 < order.remaining) :
    (walk cmd remaining queue).remaining.toInt =
      max 0 (remaining.toInt - volume (queue.takeWhile fun order => !priceStops cmd order.priceTicks)) := by
  have start := Int64.le_iff_toInt_le.mp nonneg
  rw [Int64.toInt_zero] at start
  induction queue generalizing remaining with
  | nil =>
    simp only [walk, List.takeWhile_nil, volume, List.map_nil, List.sum_nil]
    omega
  | cons passive rest ih =>
    have later := fun order member => positive order (List.mem_cons_of_mem passive member)
    have here := positive passive (by simp)
    have gain := Int64.lt_iff_toInt_lt.mp here
    rw [Int64.toInt_zero] at gain
    have front := volume_nonneg fun order member =>
      later order (List.takeWhile_subset (fun order => !priceStops cmd order.priceTicks) member)
    cases stops : priceStops cmd passive.priceTicks with
    | true =>
      simp only [walk, stops, or_true, ↓reduceIte, List.takeWhile_cons, Bool.not_true, Bool.false_eq_true,
        volume, List.map_nil, List.sum_nil]
      omega
    | false =>
      simp only [walk, stops, plain, Bool.false_eq_true, or_false, ne_eq, not_true_eq_false, and_false,
        ↓reduceIte, List.takeWhile_cons, Bool.not_false, volume, List.map_cons, List.sum_cons]
      rw [volume] at front
      split
      · rename_i done
        rw [Int64.le_iff_toInt_le, Int64.toInt_zero] at done
        dsimp only
        omega
      · split
        · rename_i partly
          rw [Int64.lt_iff_toInt_lt] at partly
          dsimp only
          rw [Int64.toInt_zero]
          omega
        · rename_i whole
          have less := toInt_sub_of_le here (not_lt.mp whole)
          have bound := Int64.le_iff_toInt_le.mp (not_lt.mp whole)
          have left := (sub_bounds here (not_lt.mp whole)).1
          have rest_ := ih left later (by omega)
          rw [volume] at rest_
          simp only [Walk.after]
          rw [rest_, less]
          congr 1
          omega

/-! ## Engines -/

theorem within_congr (within : WithinLimits engine)
    (levels : ∀ symbol side, next.levels symbol side = engine.levels symbol side) : WithinLimits next := by
  intro symbol side order member
  rw [resting_of_levels (levels symbol side)] at member
  exact within symbol side order member

theorem within_empty : WithinLimits {} := by
  intro symbol side order member
  cases side <;> simp [MatchingEngine.resting, MatchingEngine.levels, MatchingEngine.bookFor, Book.side] at member

/-- Less of an allowed order is allowed. -/
theorem allowed_of_le {price : Int64} {remaining left : Int} (allowed : Allowed price remaining)
    (positive : 0 < left) (le : left ≤ remaining) : Allowed price left := by
  have lowest : (1 : Int) ≤ price.toInt := Int64.le_iff_toInt_le.mp allowed.lowest
  refine ⟨allowed.lowest, allowed.highest, positive, le.trans allowed.quantity, ?_⟩
  exact (mul_le_mul_of_nonneg_left le (by omega)).trans allowed.notional

/-- What a walk leaves of the orders it meets is within the limits. -/
theorem matched_within (within : WithinLimits engine) (matched : Matched engine cmd mid) : WithinLimits mid := by
  intro symbol side order member
  obtain ⟨original, held, left, rfl, unchanged | ⟨positive, less⟩⟩ := mem_matched matched member
  · rw [unchanged]
    exact within symbol side original held
  · rw [Int64.lt_iff_toInt_lt] at positive less
    exact allowed_of_le (within symbol side original held) positive less.le

/-- The limits hold after an add exactly when its resting remainder keeps them. -/
theorem settled_within (wf : WellFormed engine) (within : WithinLimits engine) (matched : Matched engine cmd mid)
    (remaining : Int64) :
    WithinLimits (settled mid cmd remaining) ↔
      (rests cmd remaining → Allowed cmd.priceTicks remaining.toInt) := by
  have midWithin := matched_within within matched
  have midWf := matched_wellFormed wf matched
  by_cases resting : rests cmd remaining
  · have inserted := restOrder_inserted (midWf.sides cmd.symbol cmd.side) resting.1
    have shape : ∀ symbol side, (settled mid cmd remaining).levels symbol side =
        (mid.restOrder cmd remaining).levels symbol side := by
      intro symbol side
      simp only [settled, if_pos resting]
      rfl
    constructor
    · intro after _
      refine after cmd.symbol cmd.side (restingNode mid cmd remaining) ?_
      rw [resting_of_levels (shape _ _)]
      exact (mem_inserted inserted).mpr (.inr ⟨rfl, rfl, rfl⟩)
    · intro allowed
      refine within_congr ?_ shape
      intro symbol side order member
      rcases (mem_inserted inserted).mp member with held | ⟨rfl, -, -⟩
      · exact midWithin symbol side order held
      · exact allowed resting
  · refine ⟨fun _ rests => absurd rests resting, fun _ => within_congr midWithin fun symbol side => ?_⟩
    simp only [settled, if_neg resting]
    rfl

theorem refused_within (within : WithinLimits engine) (cmd : AddOrder) :
    WithinLimits { engine.setBook cmd.symbol (engine.bookFor cmd.symbol) with
      sequence := engine.sequence + 1 } :=
  within_congr within fun symbol side => levels_open engine cmd.symbol symbol side

theorem resting_positive (wf : WellFormed engine) (symbol : Bytes) (side : Side) :
    ∀ order ∈ engine.resting symbol side, 0 < order.remaining :=
  fun _ member => (PriceLevels.level_of_mem_queue (wf.sides symbol side) member).1.remaining

/-- What passes `check_add` and rests is within the limits. -/
theorem checked_allowed (wf : WellFormed engine) (checked : checkAdd defaultLimits cmd = none)
    (resting : rests cmd (engine.walkOf cmd).remaining) :
    Allowed cmd.priceTicks (engine.walkOf cmd).remaining.toInt := by
  simp only [checkAdd, resting.2, ne_eq, reduceCtorEq, not_false_eq_true, ↓reduceIte] at checked
  split_ifs at checked with low high band notional
  push Not at low high band notional
  have less := (walk_remaining_bounds cmd low.le (resting_positive wf cmd.symbol (opposite cmd.side))).2
  have left := resting.1
  rw [Int64.lt_iff_toInt_lt] at left low
  rw [Int64.le_iff_toInt_le] at less high notional
  have lowest : (1 : Int) ≤ cmd.priceTicks.toInt := Int64.le_iff_toInt_le.mp band.1
  have highest : cmd.priceTicks.toInt ≤ 10000000000 := Int64.le_iff_toInt_le.mp band.2
  have most : cmd.quantity.toInt ≤ 1000000 := high
  -- Within the band and the quantity limit the product does not wrap.
  have product : (cmd.priceTicks * cmd.quantity).toInt = cmd.priceTicks.toInt * cmd.quantity.toInt := by
    have upper : cmd.priceTicks.toInt * cmd.quantity.toInt ≤ 10000000000 * 1000000 :=
      mul_le_mul highest most low.le (by norm_num)
    have lower : 0 ≤ cmd.priceTicks.toInt * cmd.quantity.toInt := mul_nonneg (by omega) low.le
    rw [Int64.toInt_mul]
    apply Int.bmod_eq_of_le <;> omega
  rw [product] at notional
  have whole : Allowed cmd.priceTicks cmd.quantity.toInt := ⟨band.1, band.2, low, high, notional⟩
  exact allowed_of_le whole left less

/-- A checked add keeps the limits. -/
theorem add_within (wf : WellFormed engine) (within : WithinLimits engine)
    (checked : checkAdd defaultLimits cmd = none) (ran : engine.add cmd = .ok (next, outcome)) :
    WithinLimits next := by
  cases added_of_ran wf ran with
  | refused refuses =>
    exact refused_within within cmd
  | accepted accepts mid matched =>
    exact (settled_within wf within matched _).mpr (checked_allowed wf checked)

theorem removed_within (within : WithinLimits engine) (removed : Removed engine order next) :
    WithinLimits next :=
  fun symbol side held member => within symbol side held (mem_removed removed member)

theorem cancel_within (wf : WellFormed engine) (within : WithinLimits engine) {cmd : CancelOrder}
    (ran : engine.apply (.cancel cmd) = .ok (next, outcome)) : WithinLimits next := by
  cases applied_of_ran wf ran with
  | cancelUnknown _ missing => exact within_congr within fun _ _ => rfl
  | cancelKnown _ loc order entry taken => exact removed_within within taken.removed

/-- A good-till-cancel order without self-trade prevention rests what the
opposite side does not offer. -/
theorem rests_unoffered (wf : WellFormed engine) (plain : cmd.stp = .none) (gtc : cmd.timeInForce = .gtc) :
    (rests cmd (engine.walkOf cmd).remaining → Allowed cmd.priceTicks (engine.walkOf cmd).remaining.toInt) ↔
      (0 < cmd.quantity.toInt - offered engine cmd.symbol cmd.side cmd.priceTicks →
        Allowed cmd.priceTicks (cmd.quantity.toInt - offered engine cmd.symbol cmd.side cmd.priceTicks)) := by
  have positive := resting_positive wf cmd.symbol (opposite cmd.side)
  have stops : (fun order : Node => !priceStops cmd order.priceTicks) =
      fun order => !beyond (opposite cmd.side) cmd.priceTicks order.priceTicks := by
    funext order
    simp [priceStops, gtc]
  have some_ : 0 ≤ offered engine cmd.symbol cmd.side cmd.priceTicks :=
    volume_nonneg fun order member => positive order (List.takeWhile_subset _ member)
  by_cases started : 0 ≤ cmd.quantity
  · have left := walk_remaining_eq plain started positive
    rw [stops] at left
    change (engine.walkOf cmd).remaining.toInt = max 0 (_ - offered engine cmd.symbol cmd.side cmd.priceTicks) at left
    simp only [rests, gtc, and_true, Int64.lt_iff_toInt_lt, Int64.toInt_zero, left]
    constructor
    · intro allowed more
      rw [max_eq_right more.le] at allowed
      exact allowed more
    · intro allowed more
      rw [max_eq_right (by omega)] at more ⊢
      exact allowed more
  · have idle := MatchWalk.walk_done cmd (not_le.mp started).le (engine.resting cmd.symbol (opposite cmd.side))
    rw [not_le] at started
    have low := Int64.lt_iff_toInt_lt.mp started
    rw [Int64.toInt_zero] at low
    rw [MatchingEngine.walkOf, idle]
    exact ⟨fun _ more => by omega, fun _ resting => absurd resting.1 (not_lt.mpr started.le)⟩

/-- The opposite side of the order a replace takes out stays as it is. -/
theorem offered_takenOut {orderId : Int64} {loc : Location} (taken : TakenOut engine orderId loc order mid)
    (symbol : Bytes) (price : Int64) :
    offered mid symbol loc.side price = offered engine symbol loc.side price := by
  have away : symbol ≠ order.symbol ∨ opposite loc.side ≠ order.side := by
    rw [taken.side]
    exact .inr (opposite_ne loc.side)
  rw [offered, offered, resting_of_levels (taken.removed.elsewhere symbol (opposite loc.side) away)]

/-- A replace keeps the limits exactly when what it leaves resting does. -/
theorem replace_within_iff (wf : WellFormed engine) (within : WithinLimits engine) {cmd : ReplaceOrder}
    (ran : engine.apply (.replace cmd) = .ok (next, outcome)) :
    WithinLimits next ↔ RestsAllowed engine (.replace cmd) := by
  cases applied_of_ran wf ran with
  | replaceUnknown _ missing =>
    refine ⟨fun _ loc found => ?_, fun _ => within_congr within fun _ _ => rfl⟩
    rw [missing] at found
    cases found
  | replaceKnown _ loc order mid answer entry taken added =>
    have midWithin := removed_within within taken.removed
    set add := MatchingEngine.replacementOrder cmd order.participantId loc.side with shape
    have restsAllowed : RestsAllowed engine (.replace cmd) ↔ (add.timeInForce = .gtc →
        0 < add.quantity.toInt - offered mid add.symbol add.side add.priceTicks →
        Allowed add.priceTicks (add.quantity.toInt - offered mid add.symbol add.side add.priceTicks)) := by
      have same := offered_takenOut taken cmd.symbol cmd.newPriceTicks
      simp only [RestsAllowed, entry, Option.some.injEq, forall_eq', shape, MatchingEngine.replacementOrder, same]
    rw [restsAllowed]
    by_cases gtc : add.timeInForce = .gtc
    · have accepted : ¬ mid.refuses add := by
        simp [MatchingEngine.refuses, gtc]
      obtain ⟨last, matched, -, ran'⟩ := add_accepted taken.wellFormed accepted
      rw [added] at ran'
      cases ran'
      rw [settled_within taken.wellFormed midWithin matched, rests_unoffered taken.wellFormed rfl gtc]
      simp only [gtc, forall_const]
    · refine ⟨fun _ gtc' => absurd gtc' gtc, fun _ => ?_⟩
      cases added_of_ran taken.wellFormed added with
      | refused refuses => exact refused_within midWithin add
      | accepted accepts last matched =>
        exact (settled_within taken.wellFormed midWithin matched _).mpr fun resting => absurd resting.2 gtc

/-- A command that got past the checks keeps the limits exactly when what it
leaves resting does. -/
theorem apply_within_iff (wf : WellFormed engine) (within : WithinLimits engine) {issued : Command}
    (checked : ∀ cmd, issued = .add cmd → checkAdd defaultLimits cmd = none)
    (ran : engine.apply issued = .ok (next, outcome)) : WithinLimits next ↔ RestsAllowed engine issued := by
  cases issued with
  | add cmd => exact iff_of_true (add_within wf within (checked cmd rfl) ran) trivial
  | cancel cmd => exact iff_of_true (cancel_within wf within ran) trivial
  | replace cmd => exact replace_within_iff wf within ran

/-! ## Calls -/

variable {shardCount : Nat} [NeZero shardCount] {state : ShardedMatchingEngine shardCount}

/-- The command the call gets through, if any, leaves nothing resting beyond
the limits. -/
def CallRestsAllowed (state : ShardedMatchingEngine shardCount) (call : ShardedMatchingEngine.Call) : Prop :=
  ∀ issued ∈ state.accepted call, RestsAllowed (state.engines (shardOf issued.symbol)) issued

/-- Default limits and well-formed engines. -/
structure Sound (state : ShardedMatchingEngine shardCount) : Prop where
  limits : state.limits = defaultLimits
  engines : ∀ shard, WellFormed (state.engines shard)

/-- The limits hold in every shard. -/
def BooksWithin (state : ShardedMatchingEngine shardCount) : Prop :=
  ∀ shard, WithinLimits (state.engines shard)

/-- Every call succeeds, and keeps the limits exactly when what it leaves
resting does. -/
theorem call_within_iff (sound : Sound state) (within : BooksWithin state)
    (call : ShardedMatchingEngine.Call) :
    ∃ next outcome, state.apply call = .ok (next, outcome) ∧ Sound next ∧
      (BooksWithin next ↔ CallRestsAllowed state call) := by
  obtain ⟨next, outcome, ran, effect⟩ := apply_effect sound.engines call
  obtain ⟨next', outcome', ran', changes⟩ := apply_changes sound.engines call
  rw [ran] at ran'
  cases ran'
  refine ⟨next, outcome, ran, ⟨(effect_limits effect).trans sound.limits, fun shard =>
    change_wellFormed (changes shard) (sound.engines shard)⟩, ?_⟩
  have quiet : state.accepted call = none → CallRestsAllowed state call := by
    intro refused issued member
    rw [refused] at member
    cases member
  -- A rejection touches no book.
  have kept : ∀ (counters : Fin shardCount → Int64) (own : Fin shardCount) (wal : WalStore) (symbol : Bytes)
      (orderId : Int64) (reason : Bytes), BooksWithin (withShard { state with lastIngressSequence := counters } own wal
        ((state.engines own).reject symbol orderId reason).1) := by
    intro counters own wal symbol orderId reason shard
    rw [withShard_engines]
    split
    · exact within_congr (within own) fun _ _ => rfl
    · exact within shard
  cases effect with
  | rejected symbol orderId reason named refused =>
    exact iff_of_true (kept state.lastIngressSequence _ _ symbol orderId reason) (quiet refused)
  | riskRejected cmd reason counters named refused =>
    exact iff_of_true (kept counters _ _ cmd.symbol cmd.orderId reason) (quiet refused)
  | snapshot taken => exact iff_of_true within (quiet (by rw [taken]; rfl))
  | command issued counters engine outcome named passed applied =>
    have exactly := apply_within_iff (sound.engines _) (within _) (fun cmd shape => by
      rw [shape] at passed
      rw [← sound.limits]
      exact accepted_checked passed) applied
    have one : CallRestsAllowed state call ↔ RestsAllowed (state.engines (shardOf issued.symbol)) issued := by
      simp only [CallRestsAllowed, passed, Option.mem_def, Option.some.injEq, forall_eq']
    rw [one, ← exactly]
    constructor
    · intro after
      have here := after (shardOf issued.symbol)
      rwa [withShard_engines, if_pos rfl] at here
    · intro here shard
      rw [withShard_engines]
      split
      · exact here
      · exact within shard

/-- In every state a run of calls reaches the limits hold on the books,
exactly when no replace leaves a remainder resting beyond them. -/
theorem limits_hold_iff (files : Fin shardCount → Files) (calls : List ShardedMatchingEngine.Call) :
    (∀ before, before <+: calls → ∃ state outcomes, run ShardedMatchingEngine.apply
        (ShardedMatchingEngine.create defaultLimits files) before = .ok (state, outcomes) ∧ BooksWithin state) ↔
      Meets ShardedMatchingEngine.apply CallRestsAllowed (ShardedMatchingEngine.create defaultLimits files)
        calls :=
  Runs.always_iff Sound BooksWithin (fun _ call sound within => call_within_iff sound within call)
    ⟨rfl, fun _ => wellFormed_empty⟩ (fun _ => within_empty)

/-- A small bid, then replaced by one of twice the largest quantity. -/
def oversizedReplace : List ShardedMatchingEngine.Call :=
  [.add { symbol := ascii "S", orderId := 1, participantId := ascii "A", priceTicks := 100, quantity := 5 } none,
    .replace { symbol := ascii "S", orderId := 1, newOrderId := 2, newPriceTicks := 100, newQuantity := 2000000 }
      none]

theorem oversized_replace_limits_iff :
    (∀ before, before <+: oversizedReplace → ∃ (state : ShardedMatchingEngine 1) (outcomes : List Outcome),
        run ShardedMatchingEngine.apply (ShardedMatchingEngine.create defaultLimits fun _ => {}) before =
          .ok (state, outcomes) ∧ BooksWithin state) ↔
      Meets ShardedMatchingEngine.apply CallRestsAllowed
        (ShardedMatchingEngine.create defaultLimits fun _ : Fin 1 => {}) oversizedReplace :=
  limits_hold_iff (fun _ => {}) oversizedReplace

/-- An unchecked replace rests more than `check_add` lets through. -/
theorem replace_rests_beyond_the_limits :
    ¬ ∀ calls (state : ShardedMatchingEngine 1) outcomes, run ShardedMatchingEngine.apply
        (ShardedMatchingEngine.create defaultLimits fun _ => {}) calls = .ok (state, outcomes) →
      BooksWithin state := by
  intro always
  have rested : (run ShardedMatchingEngine.apply
      (ShardedMatchingEngine.create defaultLimits fun _ : Fin 1 => {}) oversizedReplace).map
        (fun result => ((result.1.engines 0).resting (ascii "S") .buy).map fun order => order.remaining) =
      .ok [2000000] := by decide
  cases ran : run ShardedMatchingEngine.apply
      (ShardedMatchingEngine.create defaultLimits fun _ : Fin 1 => {}) oversizedReplace with
  | error fault =>
    rw [ran] at rested
    cases rested
  | ok result =>
    rw [ran] at rested
    obtain ⟨order, rest, shape, remaining, -⟩ := List.map_eq_cons_iff.mp (Except.ok.inj rested)
    have allowed := always oversizedReplace result.1 result.2 ran 0 (ascii "S") .buy order (by simp [shape])
    have quantity := allowed.quantity
    rw [remaining] at quantity
    exact absurd quantity (by decide)

end Exchange.RiskOnBook
