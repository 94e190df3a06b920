import Exchange.Market
import Exchange.ShardedSteps

/-! Sharding cannot be seen. However many shards there are and wherever the
hash sends a symbol, the engines together make one market, the market a single
engine makes: a command reaches the engine that has its symbol's book, and what
it does there does not depend on the other symbols. -/
namespace Exchange.ShardTransparency
open EngineSteps EngineInvariant OrderIndex ShardedSteps Market
open ShardedMatchingEngine (shardOf Call)

variable {shardCount shardCount' : Nat} {state next : ShardedMatchingEngine shardCount}
  {other : ShardedMatchingEngine shardCount'} {market : Market} {command : Command}

/-- A command as a call without an ingress number. -/
def unsequencedCall : Command → Call
  | .add cmd => .add cmd none
  | .cancel cmd => .cancel cmd none
  | .replace cmd => .replace cmd none

/-- Every resting order, shard by shard. -/
def restingAnywhere (state : ShardedMatchingEngine shardCount) : List Node :=
  (List.finRange shardCount).flatMap fun shard => (state.engines shard).orders

theorem mem_restingAnywhere {order : Node} :
    order ∈ restingAnywhere state ↔ ∃ shard symbol side, order ∈ (state.engines shard).resting symbol side := by
  simp only [restingAnywhere, List.mem_flatMap, List.mem_finRange, true_and, mem_orders]

/-- The orders of one engine are among all orders. -/
theorem rests_of_engine {shard : Fin shardCount} {symbol : Bytes} {side : Side} {order : Node}
    (member : order ∈ (state.engines shard).resting symbol side) : order ∈ restingAnywhere state :=
  mem_restingAnywhere.mpr ⟨shard, symbol, side, member⟩

/-- The call brings in no id that still rests, and names the symbol of the
resting order it is about. The order a replace takes out first does not count. -/
def Orderly (state : ShardedMatchingEngine shardCount) : Call → Prop
  | .add cmd _ => ∀ order ∈ restingAnywhere state, order.orderId ≠ cmd.orderId
  | .cancel cmd _ => ∀ order ∈ restingAnywhere state, order.orderId = cmd.orderId → order.symbol = cmd.symbol
  | .replace cmd _ =>
    (∀ order ∈ restingAnywhere state, order.orderId = cmd.orderId → order.symbol = cmd.symbol) ∧
      ((∃ order ∈ restingAnywhere state, order.orderId = cmd.orderId) → cmd.newOrderId ≠ cmd.orderId →
        ∀ order ∈ restingAnywhere state, order.orderId ≠ cmd.newOrderId)
  | .snapshotAll => True

instance (state : ShardedMatchingEngine shardCount) : ∀ call, Decidable (Orderly state call)
  | .add _ _ => inferInstanceAs (Decidable (∀ _ ∈ _, _))
  | .cancel _ _ => inferInstanceAs (Decidable (∀ _ ∈ _, _))
  | .replace _ _ => inferInstanceAs (Decidable (_ ∧ (_ → _)))
  | .snapshotAll => inferInstanceAs (Decidable True)

/-- A command on the market, behind the risk check. -/
def handle (limits : RiskLimits) (market : Market) : Command → Market × Answer
  | .add cmd =>
    match checkAdd limits cmd with
    | some reason => (market, ⟨[(.rejected, [(.orderId, .int cmd.orderId), (.reason, .str reason)])], []⟩)
    | none => market.apply (.add cmd)
  | .cancel cmd => market.apply (.cancel cmd)
  | .replace cmd => market.apply (.replace cmd)

/-- A symbol's book as its levels show it, if there is one. -/
def bookView (engine : MatchingEngine) (symbol : Bytes) :
    Option (List (Int64 × List OrderView) × List (Int64 × List OrderView)) :=
  (engine.books.lookup symbol).map fun book => (Twins.sideView .buy book.bids, Twins.sideView .sell book.asks)

variable [NeZero shardCount] [NeZero shardCount']

/-- The engines are sound, know their orders, keep to the symbols of their
shards, and together show this market. -/
structure Makes (state : ShardedMatchingEngine shardCount) (market : Market) : Prop where
  wellFormed : ∀ shard, WellFormed (state.engines shard)
  indexed : ∀ shard, Indexed (state.engines shard)
  homes : ∀ shard symbol, symbol ∈ (state.engines shard).books → shardOf symbol = shard
  shown : ∀ symbol, (state.engines (shardOf symbol)).shown symbol = market symbol

/-! ## The guard -/

/-- Engines that make the same market have the same orders. -/
theorem resting_transfer (makes : Makes state market) (makes' : Makes other market) {order : Node}
    (member : order ∈ restingAnywhere other) : ∃ twin ∈ restingAnywhere state, twin.view = order.view := by
  obtain ⟨shard, symbol, side, held⟩ := mem_restingAnywhere.mp member
  have home : shardOf symbol = shard := by
    refine makes'.homes shard symbol ?_
    by_contra missing
    have nothing : (other.engines shard).resting symbol side = [] := by
      have absent := AList.lookup_eq_none.mpr missing
      cases side <;> simp [MatchingEngine.resting, MatchingEngine.levels, MatchingEngine.bookFor, absent, Book.side]
    rw [nothing] at held
    cases held
  have same : (state.engines (shardOf symbol)).shown.book symbol =
      (other.engines (shardOf symbol)).shown.book symbol := by
    rw [Market.book, Market.book, makes.shown, makes'.shown]
  have seen : order.view ∈ (other.engines (shardOf symbol)).shown.book symbol side := by
    rw [home, book_shown]
    exact List.mem_map_of_mem held
  rw [← same, book_shown] at seen
  obtain ⟨twin, inside, view⟩ := List.mem_map.mp seen
  exact ⟨twin, mem_restingAnywhere.mpr ⟨_, symbol, side, inside⟩, view⟩

/-- So a call is orderly for all of them or for none. -/
theorem orderly_transfer (makes : Makes state market) (makes' : Makes other market)
    (orderly : Orderly state (unsequencedCall command)) : Orderly other (unsequencedCall command) := by
  have all : ∀ holds : Int64 → Bytes → Prop,
      (∀ order ∈ restingAnywhere state, holds order.orderId order.symbol) →
      ∀ order ∈ restingAnywhere other, holds order.orderId order.symbol := by
    intro holds each order member
    obtain ⟨twin, inside, view⟩ := resting_transfer makes makes' member
    obtain ⟨symbol, orderId, -⟩ := Twins.view_fields view
    rw [← symbol, ← orderId]
    exact each twin inside
  cases command with
  | add cmd => exact all (fun orderId _ => orderId ≠ cmd.orderId) orderly
  | cancel cmd => exact all (fun orderId symbol => orderId = cmd.orderId → symbol = cmd.symbol) orderly
  | replace cmd =>
    obtain ⟨named, free⟩ := orderly
    refine ⟨all (fun orderId symbol => orderId = cmd.orderId → symbol = cmd.symbol) named, ?_⟩
    rintro ⟨order, member, known⟩ different
    refine all (fun orderId _ => orderId ≠ cmd.newOrderId) (free ?_ different)
    obtain ⟨twin, inside, view⟩ := resting_transfer makes makes' member
    exact ⟨twin, inside, (Twins.view_fields view).2.1.trans known⟩

/-! ## One command -/

/-- The engine of an orderly command has the order it is about under its symbol. -/
theorem onOwnSymbol (makes : Makes state market) (orderly : Orderly state (unsequencedCall command))
    (shard : Fin shardCount) : SymbolIsolation.OnOwnSymbol (state.engines shard) command := by
  have placed : ∀ orderId loc, (state.engines shard).index.lookup orderId = some loc →
      ∃ order ∈ restingAnywhere state, order.orderId = orderId ∧ order.symbol = loc.symbol := by
    intro orderId loc entry
    obtain ⟨order, member, -, -, named⟩ := (makes.wellFormed shard).located orderId loc entry
    exact ⟨order, rests_of_engine member, named,
      (PriceLevels.level_of_mem_queue ((makes.wellFormed shard).sides _ _) member).1.symbol⟩
  cases command with
  | add cmd => trivial
  | cancel cmd =>
    intro loc entry
    obtain ⟨order, member, named, symbol⟩ := placed cmd.orderId loc entry
    rw [← symbol]
    exact orderly order member named
  | replace cmd =>
    intro loc entry
    obtain ⟨order, member, named, symbol⟩ := placed cmd.orderId loc entry
    rw [← symbol]
    exact orderly.1 order member named

theorem noLiveId (makes : Makes state market) (orderly : Orderly state (unsequencedCall command))
    (shard : Fin shardCount) : NoLiveId (state.engines shard) command := by
  have anywhere : ∀ order ∈ (state.engines shard).orders, order ∈ restingAnywhere state := by
    intro order member
    obtain ⟨symbol, side, held⟩ := mem_orders.mp member
    exact rests_of_engine held
  cases command with
  | add cmd => exact fun _ _ order member => orderly order (anywhere order member)
  | cancel cmd => trivial
  | replace cmd =>
    intro _ _ known different order member
    obtain ⟨loc, entry⟩ := Option.isSome_iff_exists.mp known
    obtain ⟨held, inside, -, -, named⟩ := (makes.wellFormed shard).located cmd.orderId loc entry
    exact orderly.2 ⟨held, rests_of_engine inside, named⟩ different order (anywhere order member)

/-- One engine is exchanged for one that shows another book of one of its symbols. -/
theorem makes_withShard (makes : Makes state market) {symbol : Bytes} {engine : MatchingEngine} {market' : Market}
    (wal : WalStore) (wf : WellFormed engine) (indexed : Indexed engine)
    (here : engine.shown symbol = market' symbol) (elsewhere : ∀ other, other ≠ symbol →
      engine.shown other = (state.engines (shardOf symbol)).shown other ∧ market' other = market other) :
    Makes (withShard state (shardOf symbol) wal engine) market' := by
  have listed : ∀ (engine : MatchingEngine) symbol, symbol ∈ engine.books ↔ (engine.shown symbol).isSome := by
    intro engine symbol
    rw [MatchingEngine.shown, Option.isSome_map, AList.lookup_isSome]
  constructor
  · intro shard
    rw [withShard_engines]
    split
    · exact wf
    · exact makes.wellFormed shard
  · intro shard
    rw [withShard_engines]
    split
    · exact indexed
    · exact makes.indexed shard
  · intro shard other member
    rw [withShard_engines] at member
    split at member
    · rename_i own
      by_cases same : other = symbol
      · rw [same, own]
      · rw [listed, (elsewhere other same).1, ← listed] at member
        rw [own]
        exact makes.homes _ other member
    · exact makes.homes shard other member
  · intro other
    rw [withShard_engines]
    by_cases same : other = symbol
    · subst same
      rw [if_pos rfl]
      exact here
    · rw [(elsewhere other same).2, ← makes.shown other]
      split
      · rename_i own
        rw [own]
        exact (elsewhere other same).1
      · rfl

/-- Without a number, a command that meets no risk refusal is accepted. -/
theorem accepted_unsequenced (checked : ∀ cmd, command = .add cmd → checkAdd state.limits cmd = none) :
    state.accepted (unsequencedCall command) = some command := by
  cases command with
  | add cmd => simp [unsequencedCall, ShardedMatchingEngine.accepted, ShardedMatchingEngine.inOrder, checked cmd rfl]
  | cancel cmd => rfl
  | replace cmd => rfl

/-- A command past the risk check makes the market's step. -/
theorem makes_command (makes : Makes state market) (orderly : Orderly state (unsequencedCall command))
    (checked : ∀ cmd, command = .add cmd → checkAdd state.limits cmd = none) :
    ∃ next outcome, state.apply (unsequencedCall command) = .ok (next, outcome) ∧ next.limits = state.limits ∧
      Makes next (market.apply command).1 ∧ Answers outcome command.symbol (market.apply command).2 := by
  have passes := accepted_unsequenced checked
  obtain ⟨next, outcome, ran, effect⟩ := apply_effect makes.wellFormed (unsequencedCall command)
  cases effect with
  | rejected _ _ _ _ refused =>
    rw [passes] at refused
    cases refused
  | riskRejected _ _ _ _ refused =>
    rw [passes] at refused
    cases refused
  | snapshot taken => cases command <;> cases taken
  | command issued counters engine outcome _ passed applied =>
    rw [passes] at passed
    cases passed
    have wf := makes.wellFormed (shardOf command.symbol)
    have indexed := makes.indexed (shardOf command.symbol)
    have counted : Makes { state with lastIngressSequence := counters } market :=
      ⟨makes.wellFormed, makes.indexed, makes.homes, makes.shown⟩
    obtain ⟨shown, answers⟩ := apply_shown wf indexed (onOwnSymbol makes orderly _) applied
    obtain ⟨answer, book⟩ := apply_local (makes.shown command.symbol)
    rw [answer] at answers
    refine ⟨_, outcome, ran, rfl, ?_, answers⟩
    refine makes_withShard counted _ (wellFormed_of_apply wf applied)
      (apply_indexed wf indexed (noLiveId makes orderly _) applied) ?_ fun other away => ?_
    · rw [shown, book]
    · rw [shown]
      exact ⟨apply_elsewhere _ command away, apply_elsewhere _ command away⟩

/-- Every orderly command is handled as the market handles it. -/
theorem makes_apply (makes : Makes state market) (orderly : Orderly state (unsequencedCall command)) :
    ∃ next outcome, state.apply (unsequencedCall command) = .ok (next, outcome) ∧ next.limits = state.limits ∧
      Makes next (handle state.limits market command).1 ∧
      Answers outcome command.symbol (handle state.limits market command).2 := by
  cases command with
  | add cmd =>
    cases risk : checkAdd state.limits cmd with
    | none =>
      have passes : ∀ other, Command.add cmd = .add other → checkAdd state.limits other = none := by
        rintro other ⟨⟩
        exact risk
      simpa [handle, risk] using makes_command makes orderly passes
    | some reason =>
      simp only [handle, risk]
      refine ⟨withShard state (shardOf cmd.symbol) ((state.wals (shardOf cmd.symbol)).append (riskRecord cmd reason))
        ((state.engines (shardOf cmd.symbol)).reject cmd.symbol cmd.orderId reason).1,
        ⟨[((state.engines (shardOf cmd.symbol)).reject cmd.symbol cmd.orderId reason).2], []⟩, ?_, rfl, ?_, ?_⟩
      · simp only [unsequencedCall, ShardedMatchingEngine.apply, ShardedMatchingEngine.add,
          ShardedMatchingEngine.validateIngress, risk, ShardedMatchingEngine.log]
        rfl
      · exact makes_withShard makes _ (wellFormed_congr (makes.wellFormed _) (fun _ _ => rfl) rfl rfl)
          (indexed_congr (makes.indexed _) (fun _ _ => rfl) rfl) (makes.shown cmd.symbol) fun _ _ => ⟨rfl, rfl⟩
      · exact ⟨rfl, rfl⟩
  | cancel cmd => exact makes_command makes orderly (by simp)
  | replace cmd => exact makes_command makes orderly (by simp)

/-! ## Runs -/

theorem makes_created (limits : RiskLimits) (files : Fin shardCount → Files) :
    Makes (ShardedMatchingEngine.create limits files) fun _ => none where
  wellFormed _ := wellFormed_empty
  indexed _ := indexed_empty
  homes _ symbol member := absurd member (AList.notMem_empty symbol)
  shown _ := rfl

/-- The same answer makes the same outcome. -/
theorem sameOutcome {outcome outcome' : Outcome} {symbol : Bytes} {answer : Answer}
    (one : Answers outcome symbol answer) (two : Answers outcome' symbol answer) :
    Twins.SameOutcome outcome outcome' :=
  ⟨one.events.trans two.events.symm, one.trades.trans two.trades.symm⟩

/-- Engines that make the same market answer every orderly run alike and make
the same market after it. -/
theorem runs_make (makes : Makes state market) (makes' : Makes other market) (limits : other.limits = state.limits)
    {commands : List Command}
    (orderly : Meets ShardedMatchingEngine.apply Orderly state (commands.map unsequencedCall)) :
    ∃ final outcomes final' outcomes' market',
      run ShardedMatchingEngine.apply state (commands.map unsequencedCall) = .ok (final, outcomes) ∧
      run ShardedMatchingEngine.apply other (commands.map unsequencedCall) = .ok (final', outcomes') ∧
      List.Forall₂ Twins.SameOutcome outcomes outcomes' ∧ Makes final market' ∧ Makes final' market' := by
  induction commands generalizing state other market with
  | nil => exact ⟨state, [], other, [], market, rfl, rfl, .nil, makes, makes'⟩
  | cons command commands ih =>
    have guard : Orderly state (unsequencedCall command) := orderly.1
    have later := orderly.2
    obtain ⟨next, outcome, stepped, kept, nextMakes, answers⟩ := makes_apply makes guard
    obtain ⟨next', outcome', stepped', kept', nextMakes', answers'⟩ :=
      makes_apply makes' (orderly_transfer makes makes' guard)
    rw [limits] at nextMakes' answers' kept'
    rw [stepped] at later
    obtain ⟨final, outcomes, final', outcomes', market', ran, ran', same, finalMakes, finalMakes'⟩ :=
      ih nextMakes nextMakes' (kept'.trans kept.symm) later
    refine ⟨final, _, final', _, market', ?_, ?_, .cons (sameOutcome answers answers') same, finalMakes,
      finalMakes'⟩
    · rw [List.map_cons, Runs.run_cons stepped, ran]
      rfl
    · rw [List.map_cons, Runs.run_cons stepped', ran']
      rfl

/-- Engines that show the same book store the same levels. -/
theorem bookView_of_shown {first second : MatchingEngine} {symbol : Bytes} (wf : WellFormed first)
    (wf' : WellFormed second) (same : first.shown symbol = second.shown symbol) :
    bookView first symbol = bookView second symbol := by
  have firstSides := wf.sides symbol
  have secondSides := wf'.sides symbol
  unfold MatchingEngine.levels MatchingEngine.bookFor at firstSides secondSides
  unfold MatchingEngine.shown at same
  unfold bookView
  cases one : first.books.lookup symbol with
  | none =>
    cases two : second.books.lookup symbol with
    | none => rfl
    | some book' => simp [one, two] at same
  | some book =>
    cases two : second.books.lookup symbol with
    | none => simp [one, two] at same
    | some book' =>
      simp only [one, two, Option.getD_some] at firstSides secondSides
      simp only [one, two, Option.map_some, Option.some.injEq] at same
      have sides : ∀ side, Twins.sideView side (book.side side) = Twins.sideView side (book'.side side) := fun side =>
        Twins.sideView_of_queue (firstSides side) (secondSides side) (congrFun same side)
      rw [Option.map_some, Option.map_some, Option.some.injEq]
      exact Prod.ext (sides .buy) (sides .sell)

/-- For every number of shards, an orderly run of unsequenced commands is
answered, command by command, as a single shard answers it, and leaves every
symbol with the book the single shard has. -/
theorem sharding_is_transparent (limits : RiskLimits) (files : Fin shardCount → Files) (files' : Fin 1 → Files)
    (commands : List Command)
    (orderly : Meets ShardedMatchingEngine.apply Orderly (ShardedMatchingEngine.create limits files)
      (commands.map unsequencedCall)) :
    ∃ many outcomes one outcomes',
      run ShardedMatchingEngine.apply (ShardedMatchingEngine.create limits files) (commands.map unsequencedCall) =
        .ok (many, outcomes) ∧
      run ShardedMatchingEngine.apply (ShardedMatchingEngine.create limits files') (commands.map unsequencedCall) =
        .ok (one, outcomes') ∧
      List.Forall₂ Twins.SameOutcome outcomes outcomes' ∧
      ∀ symbol, bookView (many.engines (shardOf symbol)) symbol = bookView (one.engines 0) symbol := by
  obtain ⟨many, outcomes, one, outcomes', market, ran, ran', same, makes, makes'⟩ :=
    runs_make (makes_created limits files) (makes_created limits files') rfl orderly
  refine ⟨many, outcomes, one, outcomes', ran, ran', same, fun symbol => ?_⟩
  have only : (0 : Fin 1) = shardOf symbol := Subsingleton.elim _ _
  refine bookView_of_shown (makes.wellFormed _) (makes'.wellFormed _) ?_
  rw [only, makes.shown, makes'.shown]

/-- Orders of two symbols meet, one add is refused by risk, and an order is
cancelled that no one has. -/
def twoSymbols : List Command :=
  [.add { symbol := ascii "S", orderId := 1, participantId := ascii "A", priceTicks := 100, quantity := 5 },
    .add { symbol := ascii "T", orderId := 2, participantId := ascii "A", side := .sell, priceTicks := 7,
           quantity := 3 },
    .add { symbol := ascii "S", orderId := 3, participantId := ascii "B", side := .sell, priceTicks := 99,
           quantity := 2 },
    .add { symbol := ascii "T", orderId := 4, participantId := ascii "B", priceTicks := 7, quantity := 0 },
    .replace { symbol := ascii "T", orderId := 2, newOrderId := 5, newPriceTicks := 8, newQuantity := 1 },
    .cancel { symbol := ascii "T", orderId := 6 },
    .cancel { symbol := ascii "S", orderId := 1 }]

theorem two_symbols_on_three_shards :
    ∃ many outcomes one outcomes',
      run ShardedMatchingEngine.apply (ShardedMatchingEngine.create {} (fun _ : Fin 3 => {}))
        (twoSymbols.map unsequencedCall) = .ok (many, outcomes) ∧
      run ShardedMatchingEngine.apply (ShardedMatchingEngine.create {} (fun _ : Fin 1 => {}))
        (twoSymbols.map unsequencedCall) = .ok (one, outcomes') ∧
      List.Forall₂ Twins.SameOutcome outcomes outcomes' ∧
      ∀ symbol, bookView (many.engines (shardOf symbol)) symbol = bookView (one.engines 0) symbol :=
  sharding_is_transparent {} (fun _ => {}) (fun _ => {}) twoSymbols (by decide)

end Exchange.ShardTransparency
