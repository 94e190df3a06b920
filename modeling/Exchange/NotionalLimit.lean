import Exchange.ShardedSteps

/-! The pre-trade limits as a promise about every order that reaches an engine,
for any configuration. `check_add` compares a 64-bit product with the notional
limit. A product past the word's range comes out negative and passes, so the
promise needs the price and quantity limits to keep every product in range. -/
namespace Exchange
open ShardedMatchingEngine (shardOf)

/-- A configuration `check_add` is meant for. -/
structure RiskLimits.Configured (limits : RiskLimits) : Prop where
  minPrice : 1 ≤ limits.minPriceTicks
  maxPrice : 0 < limits.maxPriceTicks
  maxQuantity : 0 < limits.maxOrderQuantity
  maxNotional : 0 < limits.maxNotionalTicks

/-- What the limits say of an order, over the integers. -/
structure RiskLimits.Admits (limits : RiskLimits) (cmd : AddOrder) : Prop where
  quantity : 1 ≤ cmd.quantity ∧ cmd.quantity ≤ limits.maxOrderQuantity
  price : limits.minPriceTicks ≤ cmd.priceTicks ∧ cmd.priceTicks ≤ limits.maxPriceTicks
  notional : cmd.priceTicks.toInt * cmd.quantity.toInt ≤ limits.maxNotionalTicks.toInt

/-- `add` hands the order to its shard's engine: the order is logged and what
the engine answers is returned. -/
def ShardedMatchingEngine.HandsOn {shardCount : Nat} [NeZero shardCount] (state : ShardedMatchingEngine shardCount)
    (cmd : AddOrder) (number : Option Int64) : Prop :=
  ∃ counters, state.add cmd number = ((state.engines (shardOf cmd.symbol)).add cmd).map fun result =>
    (ShardedSteps.withShard { state with lastIngressSequence := counters } (shardOf cmd.symbol)
      ((state.wals (shardOf cmd.symbol)).append (record "add" (serializeAdd cmd))) result.1, result.2)

/-- Every priced order a sharded engine with these limits lets through is one
they admit. -/
def RiskLimits.Exact (limits : RiskLimits) : Prop :=
  ∀ (shardCount : Nat) [NeZero shardCount] (state : ShardedMatchingEngine shardCount) (cmd : AddOrder)
    (ingressSequence : Option Int64), state.limits = limits → cmd.timeInForce ≠ .market →
      state.HandsOn cmd ingressSequence → limits.Admits cmd

/-- No price in the band times a quantity within the limit leaves the word. -/
def RiskLimits.ProductsFit (limits : RiskLimits) : Prop :=
  limits.maxPriceTicks < limits.minPriceTicks ∨
    limits.maxPriceTicks.toInt * limits.maxOrderQuantity.toInt < 2 ^ 63

namespace NotionalLimit
open ShardedSteps
variable {limits : RiskLimits} {cmd : AddOrder}

/-- The four comparisons a priced order has passed. -/
theorem checkAdd_priced (priced : cmd.timeInForce ≠ .market) :
    checkAdd limits cmd = none ↔
      0 < cmd.quantity ∧ cmd.quantity ≤ limits.maxOrderQuantity ∧
      limits.minPriceTicks ≤ cmd.priceTicks ∧ cmd.priceTicks ≤ limits.maxPriceTicks ∧
      cmd.priceTicks * cmd.quantity ≤ limits.maxNotionalTicks := by
  have refused : ∀ (condition : Prop) [Decidable condition] (reason : Bytes) (rest : Option Bytes),
      (if condition then some reason else rest) = none ↔ ¬ condition ∧ rest = none := by
    intro condition _ reason rest
    split <;> simp_all
  simp only [checkAdd, refused, if_pos priced, not_le, not_lt, not_or, and_true, and_assoc]

/-! ## Orders that reach an engine -/

theorem matchFront_events {cmd : AddOrder} {passive : Node} {rest level : Level} {state state' : MatchState}
    {flow : Flow}
    (ran : matchFront cmd passive rest state = .ok (flow, level, state')) : state.events <+: state'.events := by
  unfold matchFront at ran
  split at ran
  · dsimp only at ran
    split at ran <;> split at ran <;> cases ran <;> simp [MatchState.event, MatchState.forget]
  · generalize (if state.remaining < passive.remaining then state.remaining else passive.remaining) = fill at ran
    dsimp only at ran
    split at ran
    · cases ran
    · split at ran
      · cases ran
      · obtain ⟨trade, -, more⟩ := Runs.bind_ok_iff.mp ran
        split at more <;> cases more <;> simp [MatchState.event, MatchState.forget]

theorem matchLevel_events {cmd : AddOrder} {fuel : Nat} {level level' : Level} {state state' : MatchState}
    (ran : matchLevel cmd fuel level state = .ok (level', state')) : state.events <+: state'.events := by
  induction fuel generalizing level state with
  | zero => cases ran
  | succ fuel ih =>
    rw [matchLevel.eq_def] at ran
    dsimp only at ran
    split at ran
    · cases level with
      | nil =>
        cases ran
        exact List.prefix_refl _
      | cons passive rest =>
        obtain ⟨⟨flow, level, mid⟩, front, more⟩ := Runs.bind_ok_iff.mp ran
        have first := matchFront_events front
        cases flow with
        | again => exact first.trans (ih more)
        | leave =>
          cases more
          exact first
    · cases ran
      exact List.prefix_refl _

theorem matchLevels_events {cmd : AddOrder} {fuel : Nat} {levels levels' : BookSide} {state state' : MatchState}
    (ran : matchLevels cmd fuel levels state = .ok (levels', state')) : state.events <+: state'.events := by
  induction fuel generalizing levels state with
  | zero => cases ran
  | succ fuel ih =>
    rw [matchLevels] at ran
    split at ran
    · split at ran
      · cases ran
        exact List.prefix_refl _
      · split at ran
        · cases ran
          exact List.prefix_refl _
        · obtain ⟨⟨level, mid⟩, inner, more⟩ := Runs.bind_ok_iff.mp ran
          exact (matchLevel_events inner).trans (ih more)
    · cases ran
      exact List.prefix_refl _

/-- The first thing an engine answers an add: it is accepted, or there is not
enough to fill it. -/
theorem add_answers_first {engine next : MatchingEngine} {cmd : AddOrder} {outcome : Outcome}
    (ran : engine.add cmd = .ok (next, outcome)) : ∃ first others, outcome.events = first :: others ∧
      (first.type = .accepted ∨
        first.payload = [(.orderId, .int cmd.orderId), (.reason, .str (ascii "FOK_UNFILLABLE"))]) := by
  unfold MatchingEngine.add at ran
  dsimp only at ran
  split at ran
  · cases ran
    exact ⟨_, [], rfl, .inr rfl⟩
  · obtain ⟨⟨levels, state⟩, matched, more⟩ := Runs.bind_ok_iff.mp ran
    obtain ⟨⟨settled, tail⟩, -, done⟩ := Runs.bind_ok_iff.mp more
    cases done
    obtain ⟨later, events⟩ := matchLevels_events matched
    exact ⟨_, later ++ tail, by rw [← events]; rfl, .inl rfl⟩

section HandedOn
variable {shardCount : Nat} [NeZero shardCount] {state : ShardedMatchingEngine shardCount} {number : Option Int64}

/-- No reason of the risk check is the engine's own. -/
theorem checkAdd_reason {reason : Bytes} (refused : checkAdd limits cmd = some reason) :
    reason ≠ ascii "FOK_UNFILLABLE" := by
  rintro rfl
  unfold checkAdd at refused
  repeat' split at refused
  all_goals exact absurd refused (by decide)

omit [NeZero shardCount] in
/-- An engine does not answer an add with a rejection for another reason. -/
theorem not_answered {engine mid : MatchingEngine} {symbol reason : Bytes} {orderId : Int64}
    {after : MatchingEngine × Outcome → ShardedMatchingEngine shardCount} {next : ShardedMatchingEngine shardCount}
    (other : reason ≠ ascii "FOK_UNFILLABLE") :
    .ok (next, ⟨[(mid.reject symbol orderId reason).2], []⟩) ≠
      (engine.add cmd).map fun result => (after result, result.2) := by
  intro same
  cases ran : engine.add cmd with
  | error fault => simp [ran, Except.map] at same
  | ok result =>
    simp only [ran, Except.map, Except.ok.injEq, Prod.mk.injEq] at same
    obtain ⟨first, others, events, answer⟩ := add_answers_first ran
    rw [← same.2] at events
    obtain ⟨rfl, -⟩ := List.cons_eq_cons.mp events
    rcases answer with accepted | unfillable
    · cases accepted
    · simp only [MatchingEngine.reject, MatchingEngine.event, List.cons.injEq, Prod.mk.injEq, PayloadValue.str.injEq,
        true_and, and_true] at unfillable
      exact other unfillable.2

/-- An order is handed on exactly when both checks pass it. -/
theorem handsOn_iff : state.HandsOn cmd number ↔ state.accepted (.add cmd number) = some (.add cmd) := by
  unfold ShardedMatchingEngine.HandsOn ShardedMatchingEngine.add
  dsimp only
  rcases validateIngress_cases state cmd.symbol number cmd.orderId with
    ⟨stale, refused⟩ | ⟨inOrder, counters, passed⟩
  · rw [refused]
    simp only [ShardedMatchingEngine.accepted, stale, Bool.false_eq_true, false_and, ↓reduceIte, reduceCtorEq,
      iff_false]
    rintro ⟨counters, same⟩
    exact not_answered (by decide) same
  · rw [passed]
    dsimp only
    cases checked : checkAdd state.limits cmd with
    | some reason =>
      simp only [ShardedMatchingEngine.accepted, checked, reduceCtorEq, and_false, ↓reduceIte, iff_false]
      rintro ⟨counters', same⟩
      exact not_answered (checkAdd_reason checked) same
    | none =>
      refine iff_of_true ⟨counters, ?_⟩ (by simp [ShardedMatchingEngine.accepted, inOrder, checked])
      simp only [ShardedMatchingEngine.log, ShardedMatchingEngine.setWal]
      cases (state.engines (shardOf cmd.symbol)).add cmd <;> rfl

end HandedOn

/-! ## Products -/

/-- A product of positive words that fits is the exact one. -/
theorem product_exact {price quantity : Int64} (positive : 0 < price) (positive' : 0 < quantity)
    (fits : price.toInt * quantity.toInt < 2 ^ 63) :
    (price * quantity).toInt = price.toInt * quantity.toInt := by
  rw [Int64.lt_iff_toInt_lt, Int64.toInt_zero] at positive positive'
  have low : 0 < price.toInt * quantity.toInt := mul_pos positive positive'
  rw [Int64.toInt_mul]
  exact Int.bmod_eq_of_le (by omega) (by omega)

/-- A product in the upper half of the unsigned range reads as negative. -/
theorem product_negative {price quantity : Int64} (leaves : 2 ^ 63 ≤ price.toInt * quantity.toInt)
    (once : price.toInt * quantity.toInt < 2 ^ 64) : (price * quantity).toInt < 0 := by
  rw [Int64.toInt_mul, Int.bmod_def]
  omega

/-- The least multiple of a number that reaches a bound. -/
theorem least_multiple {factor bound : Int} (positive : 0 < factor) (reached : 0 < bound) :
    ∃ times, 0 < times ∧ bound ≤ factor * times ∧ factor * (times - 1) < bound := by
  have above : bound - 1 < factor * ((bound - 1) / factor) + factor := Int.lt_mul_ediv_self_add positive
  have below : factor * ((bound - 1) / factor) ≤ bound - 1 := Int.mul_ediv_self_le positive.ne'
  have nonneg : 0 ≤ (bound - 1) / factor := Int.ediv_nonneg (by omega) positive.le
  refine ⟨(bound - 1) / factor + 1, by omega, ?_, ?_⟩
  · rw [mul_add, mul_one]
    omega
  · rw [add_sub_cancel_right]
    omega

/-- A box of positive numbers that reaches a bound holds a product that passes
it, but not twice. -/
theorem product_between (bound : Int) {low high most : Int} (positive : 0 < low) (band : low ≤ high)
    (some_ : 0 < most)
    (inside : low < bound) (inside' : most < bound) (reaches : bound ≤ high * most) :
    ∃ price quantity, low ≤ price ∧ price ≤ high ∧ 0 < quantity ∧ quantity ≤ most ∧
      bound ≤ price * quantity ∧ price * quantity < 2 * bound := by
  by_cases lowest : bound ≤ low * most
  · obtain ⟨quantity, more, above, least⟩ := least_multiple positive (positive.trans inside)
    refine ⟨low, quantity, le_rfl, band, more, ?_, above, ?_⟩
    · have fewer := lt_of_mul_lt_mul_left (least.trans_le lowest) positive.le
      omega
    · rw [mul_sub, mul_one] at least
      omega
  · obtain ⟨price, more, above, least⟩ := least_multiple some_ (positive.trans inside)
    rw [mul_comm high] at reaches
    rw [mul_comm low, not_le] at lowest
    refine ⟨price, most, ?_, ?_, some_, le_rfl, by rwa [mul_comm], ?_⟩
    · exact (lt_of_mul_lt_mul_left (lowest.trans_le above) some_.le).le
    · have fewer := lt_of_mul_lt_mul_left (least.trans_le reaches) some_.le
      omega
    · rw [mul_sub, mul_one] at least
      rw [mul_comm]
      omega

/-- Where products fit, `check_add` admits what the limits admit. -/
theorem admits_of_fits (configured : limits.Configured) (fits : limits.ProductsFit)
    (priced : cmd.timeInForce ≠ .market) (checked : checkAdd limits cmd = none) : limits.Admits cmd := by
  obtain ⟨some_, most, low, high, notional⟩ := (checkAdd_priced priced).mp checked
  have positive : 0 < cmd.priceTicks := lt_of_lt_of_le (by decide) (configured.minPrice.trans low)
  have product : cmd.priceTicks.toInt * cmd.quantity.toInt < 2 ^ 63 := by
    have bound := fits.resolve_left (not_lt.mpr (low.trans high))
    refine lt_of_le_of_lt (mul_le_mul (Int64.le_iff_toInt_le.mp high) (Int64.le_iff_toInt_le.mp most) ?_ ?_) bound
    · exact Int64.le_iff_toInt_le.mp some_.le
    · exact Int64.le_iff_toInt_le.mp configured.maxPrice.le
  refine ⟨⟨?_, most⟩, ⟨low, high⟩, ?_⟩
  · rw [Int64.le_iff_toInt_le]
    exact Int64.lt_iff_toInt_lt.mp some_
  · rw [← product_exact positive some_ product]
    exact Int64.le_iff_toInt_le.mp notional

/-- Where they do not, some order passes with a product out of range. -/
theorem passes_beyond (configured : limits.Configured) (overflows : ¬ limits.ProductsFit) :
    ∃ cmd : AddOrder, cmd.timeInForce ≠ .market ∧ checkAdd limits cmd = none ∧
      2 ^ 63 ≤ cmd.priceTicks.toInt * cmd.quantity.toInt := by
  obtain ⟨band, reaches⟩ := not_or.mp overflows
  rw [not_lt] at band reaches
  have minPrice : (1 : Int) ≤ limits.minPriceTicks.toInt := Int64.le_iff_toInt_le.mp configured.minPrice
  have maxQuantity : 0 < limits.maxOrderQuantity.toInt := Int64.lt_iff_toInt_lt.mp configured.maxQuantity
  have maxNotional : 0 < limits.maxNotionalTicks.toInt := Int64.lt_iff_toInt_lt.mp configured.maxNotional
  obtain ⟨price, quantity, low, high, some_, most, leaves, once⟩ :=
    product_between (2 ^ 63) minPrice (Int64.le_iff_toInt_le.mp band) maxQuantity
      limits.minPriceTicks.toInt_lt limits.maxOrderQuantity.toInt_lt reaches
  have priceWord : (Int64.ofInt price).toInt = price :=
    Int64.toInt_ofInt_of_le (by omega) (high.trans_lt limits.maxPriceTicks.toInt_lt)
  have quantityWord : (Int64.ofInt quantity).toInt = quantity :=
    Int64.toInt_ofInt_of_le (by omega) (most.trans_lt limits.maxOrderQuantity.toInt_lt)
  refine ⟨{ symbol := [], participantId := [], priceTicks := .ofInt price, quantity := .ofInt quantity },
    by simp, (checkAdd_priced (by simp)).mpr ⟨?_, ?_, ?_, ?_, ?_⟩,
    by simpa [priceWord, quantityWord] using leaves⟩
  · rw [Int64.lt_iff_toInt_lt, quantityWord]
    exact some_
  · rwa [Int64.le_iff_toInt_le, quantityWord]
  · rwa [Int64.le_iff_toInt_le, priceWord]
  · rwa [Int64.le_iff_toInt_le, priceWord]
  · have negative : (Int64.ofInt price * Int64.ofInt quantity).toInt < 0 :=
      product_negative (by rwa [priceWord, quantityWord]) (by rwa [priceWord, quantityWord])
    rw [Int64.le_iff_toInt_le]
    exact negative.le.trans maxNotional.le

/-- What a fresh single-shard engine lets through is what `check_add` passes. -/
theorem fresh_accepted (limits : RiskLimits) (cmd : AddOrder) (checked : checkAdd limits cmd = none) :
    (ShardedMatchingEngine.create limits (fun _ : Fin 1 => {})).accepted (.add cmd none) = some (.add cmd) := by
  simp [ShardedMatchingEngine.accepted, ShardedMatchingEngine.inOrder, ShardedMatchingEngine.create, checked]

/-- The limits hold of everything let through exactly when no admitted price
times an admitted quantity leaves the word. -/
theorem limits_exact_iff (limits : RiskLimits) (configured : limits.Configured) :
    limits.Exact ↔ limits.ProductsFit := by
  constructor
  · intro exact_
    by_contra overflows
    obtain ⟨cmd, priced, checked, leaves⟩ := passes_beyond configured overflows
    have admits := exact_ 1 _ cmd none rfl priced (handsOn_iff.mpr (fresh_accepted limits cmd checked))
    have most := limits.maxNotionalTicks.toInt_lt
    have notional := admits.notional
    omega
  · intro fits shardCount _ state cmd number same priced passed
    have checked := accepted_checked (handsOn_iff.mp passed)
    rw [same] at checked
    exact admits_of_fits configured fits priced checked

theorem default_limits_exact_iff : RiskLimits.Exact {} ↔ RiskLimits.ProductsFit {} :=
  limits_exact_iff {} ⟨by decide, by decide, by decide, by decide⟩

/-- Limits whose largest price times their largest quantity does not fit. -/
def wideLimits : RiskLimits :=
  { maxOrderQuantity := 10000000000, maxPriceTicks := 10000000000, maxNotionalTicks := 1000 }

/-- An order of the largest price passes: its product wraps to a negative number. -/
theorem wide_limits_leak :
    ¬ ∀ limits : RiskLimits, limits.Configured → limits.Exact := by
  intro always
  have exact_ := always wideLimits ⟨by decide, by decide, by decide, by decide⟩
  have admits := exact_ 1 (.create wideLimits fun _ => {})
    { symbol := [], participantId := [], priceTicks := 10000000000, quantity := 1000000000 } none rfl
    (by decide) (handsOn_iff.mpr (by decide))
  exact absurd admits.notional (by decide)

end NotionalLimit
end Exchange
