import Exchange.BigEndian
import Exchange.Checksum

/-! The binary wire format of `protocol.cpp`: three payload layouts and the
frame around them. All words are big-endian. -/
namespace Exchange

/-- `std::runtime_error`, with its message. -/
structure RuntimeError where
  what : Bytes
  deriving DecidableEq

def throwRuntime {α : Type} (what : String) : Except RuntimeError α := .error ⟨ascii what⟩

/-- An `enum class` over `std::uint8_t`: every byte is a value of it. -/
structure MessageType where
  code : UInt8
  deriving DecidableEq

namespace MessageType

def add : MessageType := ⟨1⟩
def cancel : MessageType := ⟨2⟩
def replace : MessageType := ⟨3⟩
def event : MessageType := ⟨10⟩

end MessageType

/-- Five bytes and three words of eight. -/
def kHeaderSize : Nat := 5 + 8 * 3

def putU8 (v : UInt8) : Bytes := [v]
def putU32 (v : UInt32) : Bytes := BigEndian.put 4 v.toNat
def putU64 (v : UInt64) : Bytes := BigEndian.put 8 v.toNat

/-- `buf[offset]`. Every caller has checked the length. -/
def getU8 (buf : Bytes) (offset : Nat) : UInt8 := buf.getD offset 0

/-- `buf.substr(offset, count)`. -/
def substr (buf : Bytes) (offset count : Nat) : Bytes := (buf.drop offset).take count

def getU32 (buf : Bytes) (offset : Nat) : UInt32 := UInt32.ofNat (BigEndian.get (substr buf offset 4))
def getU64 (buf : Bytes) (offset : Nat) : UInt64 := UInt64.ofNat (BigEndian.get (substr buf offset 8))

def tifToCode : TimeInForce → UInt8
  | .gtc => 1
  | .ioc => 2
  | .fok => 3
  | .market => 4

def codeToTif (code : UInt8) : Except RuntimeError TimeInForce :=
  if code = 1 then .ok .gtc
  else if code = 2 then .ok .ioc
  else if code = 3 then .ok .fok
  else if code = 4 then .ok .market
  else throwRuntime "invalid tif code"

def stpToCode : SelfTradePrevention → UInt8
  | .none => 0
  | .cancelAggressor => 1
  | .cancelPassive => 2
  | .cancelBoth => 3

def codeToStp (code : UInt8) : Except RuntimeError SelfTradePrevention :=
  if code = 0 then .ok .none
  else if code = 1 then .ok .cancelAggressor
  else if code = 2 then .ok .cancelPassive
  else if code = 3 then .ok .cancelBoth
  else throwRuntime "invalid stp code"

def packAddOrder (cmd : AddOrder) : Except RuntimeError Bytes :=
  if 255 < cmd.symbol.length ∨ 255 < cmd.participantId.length then
    throwRuntime "symbol or participant too long"
  else
    .ok (putU8 (UInt8.ofNat cmd.symbol.length) ++ putU8 (UInt8.ofNat cmd.participantId.length) ++
      putU8 (if cmd.side = .buy then 1 else 2) ++ putU8 (tifToCode cmd.timeInForce) ++
      putU8 (stpToCode cmd.stp) ++ putU64 cmd.orderId.toUInt64 ++ putU64 cmd.priceTicks.toUInt64 ++
      putU64 cmd.quantity.toUInt64 ++ cmd.symbol ++ cmd.participantId)

/-- A side byte other than 1 is a sell. -/
def unpackAddOrder (buf : Bytes) : Except RuntimeError AddOrder :=
  if buf.length < kHeaderSize then throwRuntime "buffer too small"
  else if 4096 < buf.length then throwRuntime "buffer too large"
  else
    let symbolLen := (getU8 buf 0).toNat
    let participantLen := (getU8 buf 1).toNat
    if buf.length < kHeaderSize + symbolLen + participantLen then throwRuntime "truncated payload"
    else do
      let tif ← codeToTif (getU8 buf 3)
      let stp ← codeToStp (getU8 buf 4)
      .ok {
        symbol := substr buf kHeaderSize symbolLen
        orderId := (getU64 buf 5).toInt64
        participantId := substr buf (kHeaderSize + symbolLen) participantLen
        side := if getU8 buf 2 = 1 then .buy else .sell
        priceTicks := (getU64 buf 13).toInt64
        quantity := (getU64 buf 21).toInt64
        timeInForce := tif
        stp := stp }

def packCancelOrder (cmd : CancelOrder) : Except RuntimeError Bytes :=
  if 255 < cmd.symbol.length then throwRuntime "symbol too long"
  else .ok (putU8 (UInt8.ofNat cmd.symbol.length) ++ putU64 cmd.orderId.toUInt64 ++ cmd.symbol)

def unpackCancelOrder (buf : Bytes) : Except RuntimeError CancelOrder :=
  if buf.length < 9 then throwRuntime "buffer too small"
  else
    let symbolLen := (getU8 buf 0).toNat
    if buf.length < 9 + symbolLen then throwRuntime "truncated payload"
    else .ok { symbol := substr buf 9 symbolLen, orderId := (getU64 buf 1).toInt64 }

def packReplaceOrder (cmd : ReplaceOrder) : Except RuntimeError Bytes :=
  if 255 < cmd.symbol.length then throwRuntime "symbol too long"
  else
    .ok (putU8 (UInt8.ofNat cmd.symbol.length) ++ putU8 (tifToCode cmd.timeInForce) ++
      putU64 cmd.orderId.toUInt64 ++ putU64 cmd.newOrderId.toUInt64 ++ putU64 cmd.newPriceTicks.toUInt64 ++
      putU64 cmd.newQuantity.toUInt64 ++ cmd.symbol)

/-- `head`, of two bytes and four words. -/
def kReplaceHead : Nat := 2 + 8 * 4

def unpackReplaceOrder (buf : Bytes) : Except RuntimeError ReplaceOrder :=
  if buf.length < kReplaceHead then throwRuntime "buffer too small"
  else
    let symbolLen := (getU8 buf 0).toNat
    if buf.length < kReplaceHead + symbolLen then throwRuntime "truncated payload"
    else do
      let tif ← codeToTif (getU8 buf 1)
      .ok {
        symbol := substr buf kReplaceHead symbolLen
        orderId := (getU64 buf 2).toInt64
        newOrderId := (getU64 buf 10).toInt64
        newPriceTicks := (getU64 buf 18).toInt64
        newQuantity := (getU64 buf 26).toInt64
        timeInForce := tif }

/-- Type, length, payload and the checksum of the payload. -/
def frameMessage (type : MessageType) (payload : Bytes) : Bytes :=
  putU8 type.code ++ putU32 (UInt32.ofNat payload.length) ++ payload ++ putU32 (crc32 payload)

/-- `parse_frame`: no value while bytes are missing, else the type, the payload
and the offset behind the frame. The offset is never beyond the data. -/
def parseFrame (data : Bytes) (offset : Nat) : Except RuntimeError (Option (MessageType × Bytes × Nat)) :=
  if data.length - offset < 5 then .ok none
  else
    let type := getU8 data offset
    let len := (getU32 data (offset + 1)).toNat
    let p := offset + 5
    if data.length - p < len + 4 then .ok none
    else
      let body := substr data p len
      if crc32 body ≠ getU32 data (p + len) then throwRuntime "frame crc mismatch"
      else .ok (some (⟨type⟩, body, p + len + 4))

def encodeCommand : Command → Except RuntimeError Bytes
  | .add cmd => (packAddOrder cmd).map (frameMessage .add)
  | .cancel cmd => (packCancelOrder cmd).map (frameMessage .cancel)
  | .replace cmd => (packReplaceOrder cmd).map (frameMessage .replace)

def decodeCommand (type : MessageType) (payload : Bytes) : Except RuntimeError Command :=
  if type = .add then (unpackAddOrder payload).map .add
  else if type = .cancel then (unpackCancelOrder payload).map .cancel
  else if type = .replace then (unpackReplaceOrder payload).map .replace
  else throwRuntime "unsupported command message type"

end Exchange
