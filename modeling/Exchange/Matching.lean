import Mathlib
import Exchange.OrderedMap
import Exchange.Types

/-! The single-writer engine of `matching_engine.cpp`, function by function.
A `std::map` of price levels is an `OrderedMap`, an `unordered_map` is an
`AList`, and a level is the list of its nodes from front to back. Nodes carry
an address, because the order index stores list iterators: two orders with the
same id are two nodes, and an iterator denotes one of them. -/
namespace Exchange

structure RestingOrder where
  symbol : Bytes
  orderId : Int64
  participantId : Bytes
  side : Side
  priceTicks : Int64
  remaining : Int64
  enteredSequence : Int
  deriving DecidableEq

/-- One `std::list` node: an order and the identity its iterators denote. -/
structure Node extends RestingOrder where
  addr : Nat
  deriving DecidableEq

abbrev Level := List Node

abbrev BookSide := OrderedMap Int64 Level

structure Book where
  bids : BookSide := ∅
  asks : BookSide := ∅
  deriving DecidableEq

def Book.side (book : Book) : Side → BookSide
  | .buy => book.bids
  | .sell => book.asks

def Book.setSide (book : Book) (side : Side) (levels : BookSide) : Book :=
  match side with
  | .buy => { book with bids := levels }
  | .sell => { book with asks := levels }

/-- An index entry. `iter` is the address of the node it points to. -/
structure Location where
  symbol : Bytes
  side : Side
  price : Int64
  iter : Nat
  deriving DecidableEq

/-- How a call can fail to return: a `MatchingEngineError`, an iterator to a
node that is gone (undefined behaviour in the source), or a `while` loop of
the source cut off by the model's fuel. -/
inductive Fault where
  | matchingEngineError (message : Bytes)
  | danglingIterator
  | outOfFuel
  deriving DecidableEq

structure MatchingEngine where
  books : AList (fun _ : Bytes => Book) := ∅
  sequence : Int := 0
  index : AList (fun _ : Int64 => Location) := ∅
  /-- How many list nodes were ever allocated; the next one gets this address. -/
  nodes : Nat := 0

/-- What `add`, `cancel` and `replace` return. A cancel has no trades. -/
structure Outcome where
  events : List ExecEvent
  trades : List Trade
  deriving DecidableEq

namespace MatchingEngine

/-- `next_sequence`. -/
def nextSequence (engine : MatchingEngine) : Int := engine.sequence + 1

/-- `books_[symbol]`: a missing book reads as an empty one. -/
def bookFor (engine : MatchingEngine) (symbol : Bytes) : Book :=
  (engine.books.lookup symbol).getD {}

def setBook (engine : MatchingEngine) (symbol : Bytes) (book : Book) : MatchingEngine :=
  { engine with books := engine.books.insert symbol book }

/-- `event`: the counter moves and the event carries its new value. -/
def event (engine : MatchingEngine) (type : EventType) (symbol : Bytes) (payload : Payload) :
    MatchingEngine × ExecEvent :=
  ({ engine with sequence := engine.sequence + 1 },
    ⟨engine.sequence + 1, type, symbol, payload⟩)

def reject (engine : MatchingEngine) (symbol : Bytes) (orderId : Int64) (reason : Bytes) :
    MatchingEngine × ExecEvent :=
  engine.event .rejected symbol [(.orderId, .int orderId), (.reason, .str reason)]

end MatchingEngine

/-- Levels from the best price on: bids from the highest key, asks from the lowest. -/
def bestFirst : Side → BookSide → List (Int64 × Level)
  | .buy, levels => levels.entries.reverse
  | .sell, levels => levels.entries

/-- `std::prev(bids.end())` or `asks.begin()`. -/
def bestLevel : Side → BookSide → Option (Int64 × Level)
  | .buy, levels => levels.entries.getLast?
  | .sell, levels => levels.entries.head?

/-- `price` lies beyond `limit` for an order taking from `side`. -/
def beyond : Side → Int64 → Int64 → Bool
  | .sell, limit, price => limit < price
  | .buy, limit, price => price < limit

/-- The liquidity scan. The total is a machine word and wraps like one. -/
def availableVolume (book : Book) (side : Side) (limitPrice : Int64) : Int64 :=
  ((bestFirst side (book.side side)).takeWhile (fun entry => !beyond side limitPrice entry.1)).foldl
    (fun total entry => entry.2.foldl (fun total order => total + order.remaining) total) 0

/-- `build_trade`: the price is the passive order's. -/
def buildTrade (active : AddOrder) (passive : RestingOrder) (qty : Int64) : Except Fault Trade :=
  if qty ≤ 0 then .error (.matchingEngineError (ascii "non-positive trade quantity"))
  else if active.symbol ≠ passive.symbol then .error (.matchingEngineError (ascii "symbol mismatch"))
  else
    let (buyerOrderId, buyerParticipantId, sellerOrderId, sellerParticipantId) :=
      match active.side with
      | .buy => (active.orderId, active.participantId, passive.orderId, passive.participantId)
      | .sell => (passive.orderId, passive.participantId, active.orderId, active.participantId)
    .ok {
      symbol := active.symbol
      priceTicks := passive.priceTicks
      quantity := qty
      buyerOrderId, sellerOrderId, buyerParticipantId, sellerParticipantId
      passiveOrderId := passive.orderId
      aggressiveOrderId := active.orderId }

/-- `check_not_crossed`. -/
def checkNotCrossed (symbol : Bytes) (book : Book) : Except Fault Unit :=
  match bestLevel .buy book.bids, bestLevel .sell book.asks with
  | some (bb, _), some (ba, _) =>
    if ba ≤ bb then .error (.matchingEngineError (ascii "crossed book on " ++ symbol)) else .ok ()
  | _, _ => .ok ()

/-- The locals of `add`'s matching loop and the engine members it changes
beside the opposite side of the book. -/
structure MatchState where
  remaining : Int64
  events : List ExecEvent
  trades : List Trade
  sequence : Int
  index : AList (fun _ : Int64 => Location)

namespace MatchState

def event (state : MatchState) (type : EventType) (symbol : Bytes) (payload : Payload) : MatchState :=
  { state with
    sequence := state.sequence + 1
    events := state.events ++ [⟨state.sequence + 1, type, symbol, payload⟩] }

/-- `index_.erase(id)`. -/
def forget (state : MatchState) (orderId : Int64) : MatchState :=
  { state with index := state.index.erase orderId }

end MatchState

/-- How an iteration of the inner loop ends: with the next test of its
condition, or by `break`. -/
inductive Flow where
  | again
  | leave

/-- The inner loop's body, at a level whose front is `passive`. -/
def matchFront (cmd : AddOrder) (passive : Node) (rest : Level) (state : MatchState) :
    Except Fault (Flow × Level × MatchState) :=
  if passive.participantId = cmd.participantId ∧ cmd.stp ≠ .none then
    let (level, state) :=
      if cmd.stp = .cancelPassive ∨ cmd.stp = .cancelBoth then
        (rest, (state.event .cancelled cmd.symbol
          [(.orderId, .int passive.orderId), (.reason, .str (ascii "SELF_TRADE_PREVENTION")),
            (.remaining, .int passive.remaining)]).forget passive.orderId)
      else (passive :: rest, state)
    if cmd.stp = .cancelAggressor ∨ cmd.stp = .cancelBoth then
      let state := state.event .cancelled cmd.symbol
        [(.orderId, .int cmd.orderId), (.reason, .str (ascii "SELF_TRADE_PREVENTION")),
          (.remaining, .int state.remaining)]
      .ok (.leave, level, { state with remaining := 0 })
    else .ok (.again, level, state)
  else
    let fill := if state.remaining < passive.remaining then state.remaining else passive.remaining
    if fill ≤ 0 then .error (.matchingEngineError (ascii "non-positive fill quantity"))
    else
      let state := { state with remaining := state.remaining - fill }
      let passive := { passive with remaining := passive.remaining - fill }
      if passive.remaining < 0 then .error (.matchingEngineError (ascii "passive overfill"))
      else do
        let trade ← buildTrade cmd passive.toRestingOrder fill
        let state := { state with trades := state.trades ++ [trade] }.event .executed cmd.symbol
          [(.aggressiveOrderId, .int cmd.orderId), (.passiveOrderId, .int passive.orderId),
            (.priceTicks, .int passive.priceTicks), (.qty, .int fill)]
        if passive.remaining = 0 then .ok (.again, rest, state.forget passive.orderId)
        else .ok (.again, passive :: rest, state)

/-- `while (remaining > 0 && !level.empty())`. -/
def matchLevel (cmd : AddOrder) : Nat → Level → MatchState → Except Fault (Level × MatchState)
  | 0, _, _ => .error .outOfFuel
  | fuel + 1, level, state =>
    if 0 < state.remaining then
      match level with
      | [] => .ok (level, state)
      | passive :: rest => do
        let (flow, level, state) ← matchFront cmd passive rest state
        match flow with
        | .again => matchLevel cmd fuel level state
        | .leave => .ok (level, state)
    else .ok (level, state)

/-- The two price tests that end the outer loop; a market order makes neither. -/
def priceStops (cmd : AddOrder) (bestPrice : Int64) : Bool :=
  cmd.timeInForce ≠ .market && beyond (opposite cmd.side) cmd.priceTicks bestPrice

/-- `while (remaining > 0 && !opposite_map.empty())`. -/
def matchLevels (cmd : AddOrder) : Nat → BookSide → MatchState → Except Fault (BookSide × MatchState)
  | 0, _, _ => .error .outOfFuel
  | fuel + 1, oppositeMap, state =>
    if 0 < state.remaining then
      match bestLevel (opposite cmd.side) oppositeMap with
      | none => .ok (oppositeMap, state)
      | some (bestPrice, level) =>
        if priceStops cmd bestPrice then .ok (oppositeMap, state)
        else do
          let (level, state) ← matchLevel cmd (level.length + 1) level state
          let oppositeMap :=
            if level.isEmpty then oppositeMap.erase bestPrice else oppositeMap.insert bestPrice level
          matchLevels cmd fuel oppositeMap state
    else .ok (oppositeMap, state)

namespace MatchingEngine

/-- `rest_order`: a fresh node at the back of its level, and the id's index
entry overwritten with its location. -/
def restOrder (engine : MatchingEngine) (cmd : AddOrder) (remaining : Int64) : MatchingEngine :=
  let book := engine.bookFor cmd.symbol
  let level := ((book.side cmd.side).find cmd.priceTicks).getD []
  let order : Node := {
    symbol := cmd.symbol
    orderId := cmd.orderId
    participantId := cmd.participantId
    side := cmd.side
    priceTicks := cmd.priceTicks
    remaining
    enteredSequence := engine.sequence
    addr := engine.nodes }
  let levels := (book.side cmd.side).insert cmd.priceTicks (level ++ [order])
  { engine.setBook cmd.symbol (book.setSide cmd.side levels) with
    index := engine.index.insert cmd.orderId ⟨cmd.symbol, cmd.side, cmd.priceTicks, engine.nodes⟩
    nodes := engine.nodes + 1 }

/-- `remove_resting`. -/
def removeResting (engine : MatchingEngine) (orderId : Int64) : MatchingEngine :=
  match engine.index.lookup orderId with
  | none => engine
  | some loc =>
    let book := engine.bookFor loc.symbol
    let sideMap := book.side loc.side
    let sideMap := match sideMap.find loc.price with
      | none => sideMap
      | some level =>
        let level := level.eraseP (fun node => node.addr = loc.iter)
        if level.isEmpty then sideMap.erase loc.price else sideMap.insert loc.price level
    { engine.setBook loc.symbol (book.setSide loc.side sideMap) with
      index := engine.index.erase orderId }

/-- `*loc.iter`: the node an index entry points to, if it still exists. -/
def deref (engine : MatchingEngine) (loc : Location) : Except Fault Node :=
  match (((engine.bookFor loc.symbol).side loc.side).find loc.price).bind
      (fun level => level.find? (fun node => node.addr = loc.iter)) with
  | some node => .ok node
  | none => .error .danglingIterator

/-- The end of `add`: what becomes of an unfilled remainder. -/
def settleRemainder (engine : MatchingEngine) (cmd : AddOrder) (remaining : Int64) :
    Except Fault (MatchingEngine × List ExecEvent) :=
  if 0 < remaining then
    match cmd.timeInForce with
    | .gtc => do
      let (engine, rested) := (engine.restOrder cmd remaining).event .rested cmd.symbol
        [(.orderId, .int cmd.orderId), (.remaining, .int remaining)]
      checkNotCrossed cmd.symbol (engine.bookFor cmd.symbol)
      .ok (engine, [rested])
    | .ioc | .market =>
      let (engine, cancelled) := engine.event .cancelled cmd.symbol
        [(.orderId, .int cmd.orderId), (.remaining, .int remaining)]
      .ok (engine, [cancelled])
    | .fok => .ok (engine, [])
  else .ok (engine, [])

def add (engine : MatchingEngine) (cmd : AddOrder) : Except Fault (MatchingEngine × Outcome) :=
  let book := engine.bookFor cmd.symbol
  let engine := engine.setBook cmd.symbol book
  if cmd.timeInForce = .fok ∧
      availableVolume book (opposite cmd.side) cmd.priceTicks < cmd.quantity then
    let (engine, rejected) := engine.reject cmd.symbol cmd.orderId (ascii "FOK_UNFILLABLE")
    .ok (engine, ⟨[rejected], []⟩)
  else do
    let (engine, accepted) := engine.event .accepted cmd.symbol
      [(.orderId, .int cmd.orderId), (.qty, .int cmd.quantity)]
    let oppositeMap := book.side (opposite cmd.side)
    let (oppositeMap, state) ← matchLevels cmd (oppositeMap.entries.length + 1) oppositeMap
      ⟨cmd.quantity, [accepted], [], engine.sequence, engine.index⟩
    let engine := { engine.setBook cmd.symbol (book.setSide (opposite cmd.side) oppositeMap) with
      sequence := state.sequence, index := state.index }
    let (engine, tail) ← engine.settleRemainder cmd state.remaining
    .ok (engine, ⟨state.events ++ tail, state.trades⟩)

def cancel (engine : MatchingEngine) (cmd : CancelOrder) :
    Except Fault (MatchingEngine × List ExecEvent) :=
  match engine.index.lookup cmd.orderId with
  | none =>
    let (engine, rejected) := engine.reject cmd.symbol cmd.orderId (ascii "UNKNOWN_ORDER")
    .ok (engine, [rejected])
  | some loc => do
    let order ← engine.deref loc
    let (engine, cancelled) := (engine.removeResting cmd.orderId).event .cancelled cmd.symbol
      [(.orderId, .int cmd.orderId), (.remaining, .int order.remaining)]
    .ok (engine, [cancelled])

/-- The add a replace issues: the new terms, for the old order's owner and side. -/
def replacementOrder (cmd : ReplaceOrder) (participant : Bytes) (side : Side) : AddOrder where
  symbol := cmd.symbol
  orderId := cmd.newOrderId
  participantId := participant
  side := side
  priceTicks := cmd.newPriceTicks
  quantity := cmd.newQuantity
  timeInForce := cmd.timeInForce
  stp := .none

def replace (engine : MatchingEngine) (cmd : ReplaceOrder) :
    Except Fault (MatchingEngine × Outcome) :=
  match engine.index.lookup cmd.orderId with
  | none =>
    let (engine, rejected) := engine.reject cmd.symbol cmd.orderId (ascii "UNKNOWN_ORDER")
    .ok (engine, ⟨[rejected], []⟩)
  | some loc => do
    let order ← engine.deref loc
    let (engine, events) ← engine.cancel ⟨cmd.symbol, cmd.orderId⟩
    let (engine, added) ← engine.add (replacementOrder cmd order.participantId loc.side)
    .ok (engine, ⟨events ++ added.events, added.trades⟩)

/-- `best_bid`: `none` where the source returns `false`. -/
def bestBid (engine : MatchingEngine) (symbol : Bytes) : Option Int64 :=
  (engine.books.lookup symbol).bind fun book => (bestLevel .buy book.bids).map Prod.fst

def bestAsk (engine : MatchingEngine) (symbol : Bytes) : Option Int64 :=
  (engine.books.lookup symbol).bind fun book => (bestLevel .sell book.asks).map Prod.fst

/-- One command of any kind. -/
def apply (engine : MatchingEngine) : Command → Except Fault (MatchingEngine × Outcome)
  | .add cmd => engine.add cmd
  | .cancel cmd => do
    let (engine, events) ← engine.cancel cmd
    .ok (engine, ⟨events, []⟩)
  | .replace cmd => engine.replace cmd

end MatchingEngine
end Exchange
