import Exchange.Matching
import Exchange.Reflection
import Exchange.Runs

/-! The two sides of the book are written out separately in the engine: two
scans, two loop ends, two price tests, two ways to fill in a trade. Swap buyers
and sellers and turn the price axis round, and every one of them does what the
other did before. -/
namespace Exchange

/-! ## The other side -/

/-- The price axis turned round. Every bit is flipped, so that no price is left without a mirror image. -/
def mirrorPrice (price : Int64) : Int64 := ~~~price

theorem mirrorPrice_toInt (price : Int64) : (mirrorPrice price).toInt = -1 - price.toInt := by
  have low := price.minValue_le_toInt
  have high := price.toInt_le
  have least : Int64.minValue.toInt = -2 ^ 63 := rfl
  have most : Int64.maxValue.toInt = 2 ^ 63 - 1 := rfl
  rw [mirrorPrice, Int64.toInt_not, Int.bmod_eq_of_le (by omega) (by omega)]
  omega

theorem mirrorPrice_lt {first second : Int64} : mirrorPrice first < mirrorPrice second ↔ second < first := by
  rw [Int64.lt_iff_toInt_lt, Int64.lt_iff_toInt_lt, mirrorPrice_toInt, mirrorPrice_toInt]
  omega

theorem mirrorPrice_le {first second : Int64} : mirrorPrice first ≤ mirrorPrice second ↔ second ≤ first := by
  rw [← not_lt, mirrorPrice_lt, not_lt]

theorem mirrorPrice_strictAnti : StrictAnti mirrorPrice := fun _ _ below => mirrorPrice_lt.mpr below

@[simp] theorem mirrorPrice_mirrorPrice (price : Int64) : mirrorPrice (mirrorPrice price) = price := Int64.not_not

def RestingOrder.mirror (order : RestingOrder) : RestingOrder :=
  { order with side := opposite order.side, priceTicks := mirrorPrice order.priceTicks }

def Node.mirror (node : Node) : Node := { node with toRestingOrder := node.toRestingOrder.mirror }

def mirrorLevel (level : Level) : Level := level.map Node.mirror

/-- Levels in the opposite order. -/
def mirrorSide (levels : BookSide) : BookSide := levels.reflect mirrorPrice_strictAnti mirrorLevel

def Book.mirror (book : Book) : Book where
  bids := mirrorSide book.asks
  asks := mirrorSide book.bids

def Location.mirror (loc : Location) : Location :=
  { loc with side := opposite loc.side, price := mirrorPrice loc.price }

def MatchingEngine.mirror (engine : MatchingEngine) : MatchingEngine :=
  { engine with
    books := Table.mapValues Book.mirror engine.books
    index := Table.mapValues Location.mirror engine.index }

def AddOrder.mirror (cmd : AddOrder) : AddOrder :=
  { cmd with side := opposite cmd.side, priceTicks := mirrorPrice cmd.priceTicks }

def ReplaceOrder.mirror (cmd : ReplaceOrder) : ReplaceOrder :=
  { cmd with newPriceTicks := mirrorPrice cmd.newPriceTicks }

def Command.mirror : Command → Command
  | .add cmd => .add cmd.mirror
  | .cancel cmd => .cancel cmd
  | .replace cmd => .replace cmd.mirror

/-- Buyer and seller change places; who was active stays active. -/
def Trade.mirror (trade : Trade) : Trade :=
  { trade with
    priceTicks := mirrorPrice trade.priceTicks
    buyerOrderId := trade.sellerOrderId
    sellerOrderId := trade.buyerOrderId
    buyerParticipantId := trade.sellerParticipantId
    sellerParticipantId := trade.buyerParticipantId }

/-- Of what an event tells only a price is turned round. -/
def mirrorPayload (payload : Payload) : Payload := payload.map fun
  | (.priceTicks, .int price) => (.priceTicks, .int (mirrorPrice price))
  | entry => entry

def ExecEvent.mirror (event : ExecEvent) : ExecEvent := { event with payload := mirrorPayload event.payload }

def Outcome.mirror (outcome : Outcome) : Outcome where
  events := outcome.events.map ExecEvent.mirror
  trades := outcome.trades.map Trade.mirror

def MatchState.mirror (state : MatchState) : MatchState :=
  { state with
    events := state.events.map ExecEvent.mirror
    trades := state.trades.map Trade.mirror
    index := Table.mapValues Location.mirror state.index }

namespace Mirror

/-! ## Twice over -/

theorem mirrorLevel_mirrorLevel (level : Level) : mirrorLevel (mirrorLevel level) = level := by
  simp only [mirrorLevel, List.map_map]
  refine List.map_id'' (fun node => ?_) level
  simp only [Function.comp_apply, Node.mirror, RestingOrder.mirror, opposite_opposite, mirrorPrice_mirrorPrice]

theorem mirrorSide_mirrorSide (levels : BookSide) : mirrorSide (mirrorSide levels) = levels := by
  refine OrderedMap.ext ?_
  simp only [mirrorSide, OrderedMap.reflect_entries, List.map_reverse, List.reverse_reverse, List.map_map]
  refine List.map_id'' (fun entry => ?_) levels.entries
  simp only [Function.comp_apply, Prod.map, mirrorPrice_mirrorPrice, mirrorLevel_mirrorLevel]

theorem mirror_mirror (engine : MatchingEngine) : engine.mirror.mirror = engine := by
  have books (book : Book) : book.mirror.mirror = book := by
    simp only [Book.mirror, mirrorSide_mirrorSide]
  have index (loc : Location) : loc.mirror.mirror = loc := by
    simp only [Location.mirror, opposite_opposite, mirrorPrice_mirrorPrice]
  simp only [MatchingEngine.mirror, Table.mapValues_mapValues, books, index, Table.mapValues_id]

/-! ## Levels and books -/

section
variable (book : Book) (side : Side) (levels : BookSide) (price : Int64) (level : Level)

theorem mirrorSide_find : (mirrorSide levels).find (mirrorPrice price) = (levels.find price).map mirrorLevel :=
  OrderedMap.reflect_find mirrorPrice_strictAnti

/-- A level that is not there is empty on either side. -/
theorem mirrorSide_level : ((mirrorSide levels).find (mirrorPrice price)).getD [] =
    mirrorLevel ((levels.find price).getD []) := by
  rw [mirrorSide_find]
  cases levels.find price <;> rfl

theorem mirrorSide_insert : mirrorSide (levels.insert price level) =
    (mirrorSide levels).insert (mirrorPrice price) (mirrorLevel level) :=
  OrderedMap.reflect_insert mirrorPrice_strictAnti

theorem mirrorSide_erase : mirrorSide (levels.erase price) = (mirrorSide levels).erase (mirrorPrice price) :=
  OrderedMap.reflect_erase mirrorPrice_strictAnti

theorem mirror_side : book.mirror.side (opposite side) = mirrorSide (book.side side) := by
  cases side <;> rfl

theorem mirror_setSide :
    (book.setSide side levels).mirror = book.mirror.setSide (opposite side) (mirrorSide levels) := by
  cases side <;> rfl

theorem mirror_bestFirst : bestFirst (opposite side) (mirrorSide levels) =
    (bestFirst side levels).map (Prod.map mirrorPrice mirrorLevel) := by
  cases side with
  | buy => exact (List.map_reverse ..).symm
  | sell =>
    rw [opposite, bestFirst, mirrorSide, OrderedMap.reflect_entries, List.reverse_reverse]
    rfl

theorem mirror_bestLevel : bestLevel (opposite side) (mirrorSide levels) =
    (bestLevel side levels).map (Prod.map mirrorPrice mirrorLevel) := by
  cases side with
  | buy => simp [opposite, bestLevel, mirrorSide, OrderedMap.reflect_entries, List.head?_reverse]
  | sell => simp [opposite, bestLevel, mirrorSide, OrderedMap.reflect_entries, List.getLast?_reverse]

theorem mirror_beyond (limit : Int64) : beyond (opposite side) (mirrorPrice limit) (mirrorPrice price) =
    beyond side limit price := by
  cases side <;> simp only [opposite, beyond, mirrorPrice_lt]

end

/-- The scan goes the other way and finds the same. -/
theorem mirror_availableVolume (book : Book) (side : Side) (limit : Int64) :
    availableVolume book.mirror (opposite side) (mirrorPrice limit) = availableVolume book side limit := by
  have test : (fun entry : Int64 × Level => !beyond (opposite side) (mirrorPrice limit) entry.1) ∘
      Prod.map mirrorPrice mirrorLevel = fun entry => !beyond side limit entry.1 := by
    funext entry
    rw [Function.comp_apply, Prod.map_fst, mirror_beyond]
  rw [availableVolume, mirror_side, mirror_bestFirst, List.takeWhile_map, test, List.foldl_map]
  refine congrArg (fun total => List.foldl total 0 _) ?_
  funext total entry
  exact List.foldl_map

theorem mirror_buildTrade (active : AddOrder) (passive : RestingOrder) (qty : Int64) :
    buildTrade active.mirror passive.mirror qty = (buildTrade active passive qty).map Trade.mirror := by
  unfold buildTrade
  by_cases positive : qty ≤ 0
  · simp only [if_pos positive]
    rfl
  by_cases other : active.symbol ≠ passive.symbol
  · have mirrored : active.mirror.symbol ≠ passive.mirror.symbol := other
    simp only [if_neg positive, if_pos other, if_pos mirrored]
    rfl
  · have mirrored : ¬ active.mirror.symbol ≠ passive.mirror.symbol := other
    simp only [if_neg positive, if_neg other, if_neg mirrored]
    obtain ⟨_, _, _, side, _, _, _, _⟩ := active
    cases side <;> rfl

theorem mirror_checkNotCrossed (symbol : Bytes) (book : Book) :
    checkNotCrossed symbol book.mirror = checkNotCrossed symbol book := by
  have bids : bestLevel .buy book.mirror.bids = _ := mirror_bestLevel .sell book.asks
  have asks : bestLevel .sell book.mirror.asks = _ := mirror_bestLevel .buy book.bids
  rw [checkNotCrossed, checkNotCrossed, bids, asks]
  cases bestLevel .buy book.bids <;> cases bestLevel .sell book.asks <;> try rfl
  simp only [Option.map_some, Prod.map, mirrorPrice_le]

/-! ## The matching loop -/

/-- What an iteration of the inner loop leaves, on the other side. -/
def mirrorFlow (result : Flow × Level × MatchState) : Flow × Level × MatchState :=
  (result.1, mirrorLevel result.2.1, result.2.2.mirror)

section
variable (cmd : AddOrder) (state : MatchState)

theorem mirror_matchFront (passive : Node) (rest : Level) :
    matchFront cmd.mirror passive.mirror (mirrorLevel rest) state.mirror =
      (matchFront cmd passive rest state).map mirrorFlow := by
  have owner : passive.mirror.participantId = passive.participantId := rfl
  have participant : cmd.mirror.participantId = cmd.participantId := rfl
  have stp : cmd.mirror.stp = cmd.stp := rfl
  unfold matchFront
  simp only [owner, participant, stp]
  by_cases own : passive.participantId = cmd.participantId ∧ cmd.stp ≠ .none
  · simp only [if_pos own]
    by_cases passiveGoes : cmd.stp = .cancelPassive ∨ cmd.stp = .cancelBoth <;>
      by_cases aggressorGoes : cmd.stp = .cancelAggressor ∨ cmd.stp = .cancelBoth <;>
        simp [passiveGoes, aggressorGoes, Except.map, mirrorFlow, MatchState.mirror, MatchState.event,
          MatchState.forget, Table.mapValues_erase, ExecEvent.mirror, mirrorPayload, Node.mirror, RestingOrder.mirror,
          AddOrder.mirror, mirrorLevel]
  · simp only [if_neg own]
    have left : passive.mirror.remaining = passive.remaining := rfl
    have room : state.mirror.remaining = state.remaining := rfl
    simp only [left, room]
    generalize (if state.remaining < passive.remaining then state.remaining else passive.remaining) = fill
    by_cases positive : fill ≤ 0
    · simp only [if_pos positive]
      rfl
    by_cases overfill : passive.remaining - fill < 0
    · simp only [if_neg positive, if_pos overfill]
      rfl
    simp only [if_neg positive, if_neg overfill]
    obtain ⟨⟨symbol, orderId, participantId, side, priceTicks, held, entered⟩, addr⟩ := passive
    have trade : buildTrade cmd.mirror ⟨symbol, orderId, participantId, opposite side, mirrorPrice priceTicks,
        held - fill, entered⟩ fill = _ :=
      mirror_buildTrade cmd ⟨symbol, orderId, participantId, side, priceTicks, held - fill, entered⟩ fill
    simp only [Node.mirror, RestingOrder.mirror, trade]
    cases buildTrade cmd ⟨symbol, orderId, participantId, side, priceTicks, held - fill, entered⟩ fill with
    | error fault => rfl
    | ok trade =>
      by_cases filled : held - fill = 0 <;>
        simp [filled, Except.map, bind, Except.bind, mirrorFlow, MatchState.mirror, MatchState.event,
          MatchState.forget, Table.mapValues_erase, ExecEvent.mirror, mirrorPayload, Node.mirror, RestingOrder.mirror,
          AddOrder.mirror, mirrorLevel]

/-- What the inner loop leaves, on the other side. -/
def mirrorMatched (result : Level × MatchState) : Level × MatchState := (mirrorLevel result.1, result.2.mirror)

theorem mirror_matchLevel (fuel : Nat) (level : Level) :
    matchLevel cmd.mirror fuel (mirrorLevel level) state.mirror =
      (matchLevel cmd fuel level state).map mirrorMatched := by
  induction fuel generalizing level state with
  | zero => rfl
  | succ fuel ih =>
    have left : state.mirror.remaining = state.remaining := rfl
    simp only [matchLevel, left]
    by_cases room : 0 < state.remaining
    · simp only [if_pos room]
      cases level with
      | nil => rfl
      | cons passive rest =>
        have front := mirror_matchFront cmd state passive rest
        simp only [mirrorLevel, List.map_cons] at front ⊢
        rw [front]
        cases matchFront cmd passive rest state with
        | error fault => rfl
        | ok result =>
          obtain ⟨flow, level, next⟩ := result
          cases flow with
          | again => exact ih next level
          | leave => rfl
    · simp only [if_neg room]
      rfl

theorem mirror_priceStops (price : Int64) : priceStops cmd.mirror (mirrorPrice price) = priceStops cmd price := by
  have test := mirror_beyond (opposite cmd.side) price cmd.priceTicks
  rw [priceStops, priceStops, ← test]
  rfl

/-- What the outer loop leaves, on the other side. -/
def mirrorSwept (result : BookSide × MatchState) : BookSide × MatchState := (mirrorSide result.1, result.2.mirror)

theorem mirror_matchLevels (fuel : Nat) (levels : BookSide) :
    matchLevels cmd.mirror fuel (mirrorSide levels) state.mirror =
      (matchLevels cmd fuel levels state).map mirrorSwept := by
  induction fuel generalizing levels state with
  | zero => rfl
  | succ fuel ih =>
    have left : state.mirror.remaining = state.remaining := rfl
    have best : bestLevel (opposite cmd.mirror.side) (mirrorSide levels) = _ :=
      mirror_bestLevel (opposite cmd.side) levels
    simp only [matchLevels, left, best]
    by_cases room : 0 < state.remaining
    · simp only [if_pos room]
      cases bestLevel (opposite cmd.side) levels with
      | none => rfl
      | some entry =>
        obtain ⟨price, level⟩ := entry
        simp only [Option.map_some, Prod.map, mirror_priceStops]
        by_cases stops : priceStops cmd price
        · simp only [if_pos stops]
          rfl
        · have length : (mirrorLevel level).length = level.length := List.length_map ..
          simp only [if_neg stops, length, mirror_matchLevel]
          cases matchLevel cmd (level.length + 1) level state with
          | error fault => rfl
          | ok result =>
            obtain ⟨level, next⟩ := result
            have empty : (mirrorLevel level).isEmpty = level.isEmpty := by cases level <;> rfl
            simp only [Except.map, mirrorMatched, bind, Except.bind, empty]
            rw [← mirrorSide_erase, ← mirrorSide_insert, ← apply_ite mirrorSide]
            exact ih next _
    · simp only [if_neg room]
      rfl

end

/-! ## The engine -/

/-- Two steps on the other side, one after the other. -/
theorem bind_mirror {A A' B B' : Type} {f : A → A'} {result : B → B'} {first : Except Fault A}
    {first' : Except Fault A'} {next : A → Except Fault B} {next' : A' → Except Fault B'}
    (same : first' = first.map f) (each : ∀ value, next' (f value) = (next value).map result) :
    (first' >>= next') = (first >>= next).map result := by
  subst same
  cases first with
  | error fault => rfl
  | ok value => exact each value

section
variable (engine : MatchingEngine) (symbol : Bytes)

theorem mirror_bookFor : engine.mirror.bookFor symbol = (engine.bookFor symbol).mirror := by
  rw [MatchingEngine.bookFor, MatchingEngine.bookFor, MatchingEngine.mirror, Table.mapValues_lookup]
  cases engine.books.lookup symbol <;> rfl

theorem mirror_setBook (book : Book) :
    (engine.setBook symbol book).mirror = engine.mirror.setBook symbol book.mirror := by
  simp only [MatchingEngine.setBook, MatchingEngine.mirror, Table.mapValues_insert]

theorem mirror_lookup (orderId : Int64) :
    engine.mirror.index.lookup orderId = (engine.index.lookup orderId).map Location.mirror :=
  Table.mapValues_lookup ..

/-- A new order is the last of its level on either side. -/
theorem mirror_restOrder (cmd : AddOrder) (remaining : Int64) :
    (engine.restOrder cmd remaining).mirror = engine.mirror.restOrder cmd.mirror remaining := by
  obtain ⟨symbol, orderId, participantId, side, priceTicks, quantity, timeInForce, stp⟩ := cmd
  simp only [MatchingEngine.restOrder, AddOrder.mirror, mirror_bookFor, mirror_side, mirrorSide_level]
  generalize (engine.bookFor symbol) = book
  simp only [MatchingEngine.mirror, MatchingEngine.setBook, Table.mapValues_insert, mirror_setSide, mirrorSide_insert,
    mirrorLevel, List.map_append, List.map_cons, List.map_nil, Node.mirror, RestingOrder.mirror, Location.mirror]

theorem mirror_removeResting (orderId : Int64) :
    (engine.removeResting orderId).mirror = engine.mirror.removeResting orderId := by
  rw [MatchingEngine.removeResting, MatchingEngine.removeResting, mirror_lookup]
  cases engine.index.lookup orderId with
  | none => rfl
  | some loc =>
    obtain ⟨symbol, side, price, iter⟩ := loc
    simp only [Option.map_some, Location.mirror, mirror_bookFor, mirror_side, mirrorSide_find]
    generalize (engine.bookFor symbol) = book
    cases (book.side side).find price with
    | none =>
      simp only [Option.map_none, MatchingEngine.mirror, MatchingEngine.setBook, Table.mapValues_insert,
        Table.mapValues_erase, mirror_setSide]
    | some level =>
      have erased : (mirrorLevel level).eraseP (fun node => node.addr = iter) =
          mirrorLevel (level.eraseP fun node => node.addr = iter) := List.eraseP_map ..
      have empty (level : Level) : (mirrorLevel level).isEmpty = level.isEmpty := by cases level <;> rfl
      simp only [Option.map_some, erased, empty, MatchingEngine.mirror, MatchingEngine.setBook, Table.mapValues_insert,
        Table.mapValues_erase, mirror_setSide, ← mirrorSide_erase, ← mirrorSide_insert, ← apply_ite mirrorSide]

theorem mirror_deref (loc : Location) : engine.mirror.deref loc.mirror = (engine.deref loc).map Node.mirror := by
  have walk : (((engine.mirror.bookFor loc.mirror.symbol).side loc.mirror.side).find loc.mirror.price).bind
      (fun level => level.find? fun node => node.addr = loc.mirror.iter) =
      ((((engine.bookFor loc.symbol).side loc.side).find loc.price).bind
        fun level => level.find? fun node => node.addr = loc.iter).map Node.mirror := by
    change (((engine.mirror.bookFor loc.symbol).side (opposite loc.side)).find (mirrorPrice loc.price)).bind
      (fun level => level.find? fun node => node.addr = loc.iter) = _
    rw [mirror_bookFor, mirror_side, mirrorSide_find, Option.bind_map, Option.map_bind]
    exact congrArg _ (funext fun level => List.find?_map ..)
  rw [MatchingEngine.deref, walk, MatchingEngine.deref]
  cases (((engine.bookFor loc.symbol).side loc.side).find loc.price).bind
    fun level => level.find? fun node => node.addr = loc.iter <;> rfl

/-- An engine and what it has answered, on the other side. -/
def mirrorResult (result : MatchingEngine × Outcome) : MatchingEngine × Outcome := (result.1.mirror, result.2.mirror)

def mirrorEvents (result : MatchingEngine × List ExecEvent) : MatchingEngine × List ExecEvent :=
  (result.1.mirror, result.2.map ExecEvent.mirror)

theorem mirror_settleRemainder (cmd : AddOrder) (remaining : Int64) :
    engine.mirror.settleRemainder cmd.mirror remaining =
      (engine.settleRemainder cmd remaining).map mirrorEvents := by
  have tif : cmd.mirror.timeInForce = cmd.timeInForce := rfl
  have symbol : cmd.mirror.symbol = cmd.symbol := rfl
  have orderId : cmd.mirror.orderId = cmd.orderId := rfl
  simp only [MatchingEngine.settleRemainder, tif, symbol, orderId]
  by_cases left : 0 < remaining
  · simp only [if_pos left]
    cases cmd.timeInForce with
    | gtc =>
      rw [← mirror_restOrder]
      generalize engine.restOrder cmd remaining = rested
      have test : checkNotCrossed cmd.symbol (rested.mirror.bookFor cmd.symbol) =
          checkNotCrossed cmd.symbol (rested.bookFor cmd.symbol) := by
        rw [mirror_bookFor, mirror_checkNotCrossed]
      change Except.bind (checkNotCrossed cmd.symbol (rested.mirror.bookFor cmd.symbol)) _ =
        Except.map mirrorEvents (Except.bind (checkNotCrossed cmd.symbol (rested.bookFor cmd.symbol)) _)
      rw [test]
      cases checkNotCrossed cmd.symbol (rested.bookFor cmd.symbol) <;> rfl
    | ioc => rfl
    | market => rfl
    | fok => rfl
  · simp only [if_neg left]
    rfl

theorem mirror_add (cmd : AddOrder) : engine.mirror.add cmd.mirror = (engine.add cmd).map mirrorResult := by
  have tif : cmd.mirror.timeInForce = cmd.timeInForce := rfl
  have quantity : cmd.mirror.quantity = cmd.quantity := rfl
  have volume := mirror_availableVolume (engine.bookFor cmd.symbol) (opposite cmd.side) cmd.priceTicks
  have book : engine.mirror.bookFor cmd.mirror.symbol = (engine.bookFor cmd.symbol).mirror := mirror_bookFor ..
  have across : opposite cmd.mirror.side = opposite (opposite cmd.side) := rfl
  have price : cmd.mirror.priceTicks = mirrorPrice cmd.priceTicks := rfl
  have opened : engine.mirror.setBook cmd.mirror.symbol (engine.bookFor cmd.symbol).mirror =
      (engine.setBook cmd.symbol (engine.bookFor cmd.symbol)).mirror := (mirror_setBook ..).symm
  simp only [MatchingEngine.add, tif, quantity, book, across, price, volume, opened]
  generalize engine.bookFor cmd.symbol = book
  generalize engine.setBook cmd.symbol book = opened
  by_cases refused : cmd.timeInForce = .fok ∧ availableVolume book (opposite cmd.side) cmd.priceTicks < cmd.quantity
  · simp only [if_pos refused]
    rfl
  simp only [if_neg refused]
  have levels : book.mirror.side (opposite (opposite cmd.side)) = mirrorSide (book.side (opposite cmd.side)) :=
    mirror_side ..
  have length : (mirrorSide (book.side (opposite cmd.side))).entries.length =
      (book.side (opposite cmd.side)).entries.length := by
    rw [mirrorSide, OrderedMap.reflect_entries, List.length_reverse, List.length_map]
  refine bind_mirror (f := mirrorSwept) ?_ fun swept => bind_mirror (f := mirrorEvents) ?_ fun settled => ?_
  · rw [levels, length]
    exact mirror_matchLevels cmd ⟨cmd.quantity, [(opened.event .accepted cmd.symbol
      [(.orderId, .int cmd.orderId), (.qty, .int cmd.quantity)]).2], [], opened.sequence + 1, opened.index⟩ _ _
  · obtain ⟨swept, state⟩ := swept
    refine .trans (congrArg (fun engine => MatchingEngine.settleRemainder engine _ _) ?_)
      (mirror_settleRemainder { opened.setBook cmd.symbol (book.setSide (opposite cmd.side) swept) with
        sequence := state.sequence, index := state.index } cmd state.remaining)
    simp only [MatchingEngine.mirror, MatchingEngine.setBook, Table.mapValues_insert, mirror_setSide]
    rfl
  · simp only [mirrorResult, mirrorSwept, mirrorEvents, Outcome.mirror, MatchState.mirror, Except.map, List.map_append]

theorem mirror_cancel (cmd : CancelOrder) : engine.mirror.cancel cmd = (engine.cancel cmd).map mirrorEvents := by
  rw [MatchingEngine.cancel, MatchingEngine.cancel, mirror_lookup]
  cases engine.index.lookup cmd.orderId with
  | none => rfl
  | some loc =>
    refine bind_mirror (mirror_deref engine loc) fun order => ?_
    rw [← mirror_removeResting]
    rfl

theorem mirror_replace (cmd : ReplaceOrder) :
    engine.mirror.replace cmd.mirror = (engine.replace cmd).map mirrorResult := by
  have lookup : engine.mirror.index.lookup cmd.mirror.orderId = _ := mirror_lookup engine cmd.orderId
  rw [MatchingEngine.replace, MatchingEngine.replace, lookup]
  cases engine.index.lookup cmd.orderId with
  | none => rfl
  | some loc =>
    refine bind_mirror (mirror_deref engine loc) fun order => bind_mirror (mirror_cancel engine _) fun cancelled => ?_
    refine bind_mirror
      (mirror_add cancelled.1 (MatchingEngine.replacementOrder cmd order.participantId loc.side)) fun added => ?_
    simp only [mirrorResult, Outcome.mirror, Except.map, List.map_append]

theorem mirror_apply (cmd : Command) : engine.mirror.apply cmd.mirror = (engine.apply cmd).map mirrorResult := by
  cases cmd with
  | add cmd => exact mirror_add engine cmd
  | cancel cmd => exact bind_mirror (mirror_cancel engine cmd) fun cancelled => rfl
  | replace cmd => exact mirror_replace engine cmd

theorem mirror_bestBid : engine.mirror.bestBid symbol = (engine.bestAsk symbol).map mirrorPrice := by
  rw [MatchingEngine.bestBid, MatchingEngine.bestAsk, MatchingEngine.mirror, Table.mapValues_lookup]
  cases engine.books.lookup symbol with
  | none => rfl
  | some book =>
    have best : bestLevel .buy book.mirror.bids = _ := mirror_bestLevel .sell book.asks
    simp only [Option.map_some, Option.bind_some, best, Option.map_map]
    rfl

theorem mirror_bestAsk : engine.mirror.bestAsk symbol = (engine.bestBid symbol).map mirrorPrice := by
  rw [MatchingEngine.bestBid, MatchingEngine.bestAsk, MatchingEngine.mirror, Table.mapValues_lookup]
  cases engine.books.lookup symbol with
  | none => rfl
  | some book =>
    have best : bestLevel .sell book.mirror.asks = _ := mirror_bestLevel .buy book.bids
    simp only [Option.map_some, Option.bind_some, best, Option.map_map]
    rfl

theorem mirror_run (commands : List Command) :
    run MatchingEngine.apply engine.mirror (commands.map Command.mirror) =
      (run MatchingEngine.apply engine commands).map fun result => (result.1.mirror, result.2.map Outcome.mirror) := by
  induction commands generalizing engine with
  | nil => rfl
  | cons cmd commands ih =>
    exact bind_mirror (mirror_apply engine cmd) fun first => bind_mirror (ih first.1) fun rest => rfl

end

/-- Nothing in the engine favours a side. From any state, whatever the commands:
exchange the sides and turn the prices round, and the engine answers with the
same events and trades, sides exchanged and prices turned round, ends in the
mirror image of its state or fails as it did, and its best bid is the mirror
image of the best ask. The mirror image of the mirror image is the state itself. -/
theorem sides_are_mirror_images (engine : MatchingEngine) (commands : List Command) :
    run MatchingEngine.apply engine.mirror (commands.map Command.mirror) =
        (run MatchingEngine.apply engine commands).map
          (fun result => (result.1.mirror, result.2.map Outcome.mirror)) ∧
      (∀ symbol, engine.mirror.bestBid symbol = (engine.bestAsk symbol).map mirrorPrice ∧
        engine.mirror.bestAsk symbol = (engine.bestBid symbol).map mirrorPrice) ∧
      engine.mirror.mirror = engine :=
  ⟨mirror_run engine commands, fun symbol => ⟨mirror_bestBid engine symbol, mirror_bestAsk engine symbol⟩,
    mirror_mirror engine⟩

end Mirror
end Exchange
