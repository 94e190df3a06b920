import Exchange.Json
import Exchange.Matching

/-! The engine as a JSON document and back: `serialize_side`, `snapshot`,
`restore_side` and `load_snapshot`. A restored order is a new node, rested in
the order of the document. -/
namespace Exchange

/-- The members of an object; no other value has any. -/
def Json.objectValue : Json → List (Bytes × Json)
  | .object members => members
  | _ => []

namespace MatchingEngine

def orderJson (order : RestingOrder) : Json :=
  .object [(ascii "order_id", .int order.orderId), (ascii "participant_id", .string order.participantId),
    (ascii "remaining", .int order.remaining)]

def levelJson (entry : Int64 × Level) : Json :=
  .object [(ascii "price_ticks", .int entry.1),
    (ascii "orders", .array (entry.2.map fun order => orderJson order.toRestingOrder))]

/-- `serialize_side`: levels from the best price on. -/
def serializeSide (book : Book) (side : Side) : Json :=
  .array ((bestFirst side (book.side side)).map levelJson)

def bookJson (book : Book) : Json :=
  .object [(ascii "bids", serializeSide book .buy), (ascii "asks", serializeSide book .sell)]

/-- The document that lists these books. -/
def snapshotListing (engine : MatchingEngine) (books : List (Sigma fun _ : Bytes => Book)) : Json :=
  .object [(ascii "sequence", .int (Int64.ofInt engine.sequence)),
    (ascii "books", .object (books.map fun entry => (entry.1, bookJson entry.2)))]

/-- `snapshot`, with the books in the order of the model's map. -/
def snapshot (engine : MatchingEngine) : Json := engine.snapshotListing engine.books.entries

/-- What `snapshot` may return: a hash map is iterated in no order one can rely on. -/
def IsSnapshot (engine : MatchingEngine) (snap : Json) : Prop :=
  ∃ books, books.Perm engine.books.entries ∧ snap = engine.snapshotListing books

theorem isSnapshot_snapshot (engine : MatchingEngine) : engine.IsSnapshot engine.snapshot :=
  ⟨_, .refl _, rfl⟩

/-- The order command a stored order is rested with. -/
def restoredOrder (symbol : Bytes) (side : Side) (price orderId participant remaining : Json) : AddOrder where
  symbol := symbol
  orderId := orderId.asInt
  participantId := participant.asString
  side := side
  priceTicks := price.asInt
  quantity := remaining.asInt
  timeInForce := .gtc

/-- One stored order; an incomplete one is passed over. -/
def restoreOrder (symbol : Bytes) (side : Side) (price : Json) (engine : MatchingEngine) (order : Json) :
    MatchingEngine :=
  match order.find (ascii "order_id"), order.find (ascii "participant_id"),
      order.find (ascii "remaining") with
  | some orderId, some participant, some remaining =>
    engine.restOrder (restoredOrder symbol side price orderId participant remaining) remaining.asInt
  | _, _, _ => engine

def restoreLevel (symbol : Bytes) (side : Side) (engine : MatchingEngine) (level : Json) : MatchingEngine :=
  match level.find (ascii "price_ticks"), level.find (ascii "orders") with
  | some price, some orders => orders.arrayValue.foldl (restoreOrder symbol side price) engine
  | _, _ => engine

/-- `restore_side`: the book is there even when no order is. -/
def restoreSide (engine : MatchingEngine) (symbol : Bytes) (levels : Json) (side : Side) : MatchingEngine :=
  if levels.isArray then
    levels.arrayValue.foldl (restoreLevel symbol side) (engine.setBook symbol (engine.bookFor symbol))
  else engine

def restoreBook (engine : MatchingEngine) (entry : Bytes × Json) : Except Fault MatchingEngine :=
  if entry.2.isObject then
    let engine := match entry.2.find (ascii "bids") with
      | some bids => engine.restoreSide entry.1 bids .buy
      | none => engine
    .ok (match entry.2.find (ascii "asks") with
      | some asks => engine.restoreSide entry.1 asks .sell
      | none => engine)
  else .error (.matchingEngineError (ascii "invalid snapshot: book data must be an object"))

/-- `load_snapshot`. -/
def loadSnapshot (engine : MatchingEngine) (snap : Json) : Except Fault MatchingEngine :=
  let engine := { engine with
    books := ∅
    index := ∅
    sequence := ((snap.find (ascii "sequence")).map fun sequence => sequence.asInt.toInt).getD 0 }
  match snap.find (ascii "books") with
  | some books =>
    if books.isObject then books.objectValue.foldlM restoreBook engine
    else .error (.matchingEngineError (ascii "invalid snapshot: 'books' must be an object"))
  | none => .error (.matchingEngineError (ascii "invalid snapshot: 'books' must be an object"))

end MatchingEngine
end Exchange
