import Mathlib

/-! The vocabulary of `types.hpp`: commands, trades and execution events. A
`long long` field is an `Int64`, so every arithmetic step below wraps where
the machine word does; a `std::string` is its bytes, with no encoding. -/
namespace Exchange

/-- A `std::string`: any bytes, NUL and non-ASCII ones included. -/
abbrev Bytes := List UInt8

/-- The bytes of an ASCII literal of the source. -/
def ascii (text : String) : Bytes := text.toList.map Char.toUInt8

/-- Signed words in their numeric order, the order of a `std::map` key. -/
instance int64LinearOrder : LinearOrder Int64 where
  le_refl := Int64.le_refl
  le_trans _ _ _ := Int64.le_trans
  le_antisymm _ _ := Int64.le_antisymm
  le_total := Int64.le_total
  lt_iff_le_not_ge a b := by
    rw [Int64.lt_iff_toInt_lt, Int64.le_iff_toInt_le, Int64.le_iff_toInt_le]
    omega
  toDecidableLE := inferInstance
  toDecidableEq := inferInstance
  toDecidableLT := inferInstance

inductive Side where
  | buy
  | sell
  deriving DecidableEq, Repr

def opposite : Side → Side
  | .buy => .sell
  | .sell => .buy

@[simp] theorem opposite_opposite (side : Side) : opposite (opposite side) = side := by
  cases side <;> rfl

@[simp] theorem opposite_ne (side : Side) : opposite side ≠ side := by
  cases side <;> decide

def Side.toString : Side → Bytes
  | .buy => ascii "BUY"
  | .sell => ascii "SELL"

def sideFromString (value : Bytes) : Side :=
  if value = ascii "BUY" then .buy else .sell

inductive TimeInForce where
  | gtc
  | ioc
  | fok
  | market
  deriving DecidableEq, Repr

def TimeInForce.toString : TimeInForce → Bytes
  | .gtc => ascii "GTC"
  | .ioc => ascii "IOC"
  | .fok => ascii "FOK"
  | .market => ascii "MARKET"

def tifFromString (value : Bytes) : TimeInForce :=
  if value = ascii "IOC" then .ioc
  else if value = ascii "FOK" then .fok
  else if value = ascii "MARKET" then .market
  else .gtc

inductive SelfTradePrevention where
  | none
  | cancelAggressor
  | cancelPassive
  | cancelBoth
  deriving DecidableEq, Repr

def SelfTradePrevention.toString : SelfTradePrevention → Bytes
  | .none => ascii "NONE"
  | .cancelAggressor => ascii "CANCEL_AGGRESSOR"
  | .cancelPassive => ascii "CANCEL_PASSIVE"
  | .cancelBoth => ascii "CANCEL_BOTH"

def stpFromString (value : Bytes) : SelfTradePrevention :=
  if value = ascii "CANCEL_AGGRESSOR" then .cancelAggressor
  else if value = ascii "CANCEL_PASSIVE" then .cancelPassive
  else if value = ascii "CANCEL_BOTH" then .cancelBoth
  else .none

/-- Every enumeration name written to the log is read back as itself. -/
@[simp] theorem sideFromString_toString (side : Side) : sideFromString side.toString = side := by
  cases side <;> decide

@[simp] theorem tifFromString_toString (tif : TimeInForce) : tifFromString tif.toString = tif := by
  cases tif <;> decide

@[simp] theorem stpFromString_toString (stp : SelfTradePrevention) :
    stpFromString stp.toString = stp := by
  cases stp <;> decide

inductive EventType where
  | accepted
  | executed
  | rested
  | cancelled
  | rejected
  deriving DecidableEq, Repr

structure AddOrder where
  symbol : Bytes
  orderId : Int64 := 0
  participantId : Bytes
  side : Side := .buy
  priceTicks : Int64 := 0
  quantity : Int64 := 0
  timeInForce : TimeInForce := .gtc
  stp : SelfTradePrevention := .none
  deriving DecidableEq

structure CancelOrder where
  symbol : Bytes
  orderId : Int64 := 0
  deriving DecidableEq

structure ReplaceOrder where
  symbol : Bytes
  orderId : Int64 := 0
  newOrderId : Int64 := 0
  newPriceTicks : Int64 := 0
  newQuantity : Int64 := 0
  timeInForce : TimeInForce := .gtc
  deriving DecidableEq

/-- `gateway.hpp`: `std::variant<AddOrder, CancelOrder, ReplaceOrder>`. -/
inductive Command where
  | add (cmd : AddOrder)
  | cancel (cmd : CancelOrder)
  | replace (cmd : ReplaceOrder)
  deriving DecidableEq

def Command.symbol : Command → Bytes
  | .add cmd => cmd.symbol
  | .cancel cmd => cmd.symbol
  | .replace cmd => cmd.symbol

structure Trade where
  symbol : Bytes
  priceTicks : Int64
  quantity : Int64
  buyerOrderId : Int64
  sellerOrderId : Int64
  buyerParticipantId : Bytes
  sellerParticipantId : Bytes
  passiveOrderId : Int64
  aggressiveOrderId : Int64
  deriving DecidableEq

/-- The payload keys the engine writes, in the order of their strings. -/
inductive PayloadKey where
  | aggressiveOrderId
  | orderId
  | passiveOrderId
  | priceTicks
  | qty
  | reason
  | remaining
  deriving DecidableEq, Repr

inductive PayloadValue where
  | int (value : Int64)
  | str (value : Bytes)
  deriving DecidableEq

/-- `std::map<std::string, PayloadValue>`, listed by key. -/
abbrev Payload := List (PayloadKey × PayloadValue)

structure ExecEvent where
  /-- The engine-wide event counter, as an unbounded integer. -/
  sequence : Int
  type : EventType
  symbol : Bytes
  payload : Payload
  deriving DecidableEq

/-- `payload_int`: absent keys and string values throw in the source. -/
def payloadInt (payload : Payload) (key : PayloadKey) : Option Int64 :=
  match payload.lookup key with
  | some (.int value) => some value
  | _ => none

def payloadStr (payload : Payload) (key : PayloadKey) : Option Bytes :=
  match payload.lookup key with
  | some (.str value) => some value
  | _ => none

end Exchange
