import Exchange.Recovery
import Exchange.Snapshot

/-! The symbol-sharded engine of `sharded.cpp` with the risk checks of
`risk.hpp`. Every shard has one engine, one log and one ingress counter; the
hash of a command's symbol picks the shard. A command is logged before it is
applied, and a replayed log is applied to the loaded snapshot. -/
namespace Exchange

structure RiskLimits where
  maxOrderQuantity : Int64 := 1000000
  minPriceTicks : Int64 := 1
  maxPriceTicks : Int64 := 10000000000
  maxNotionalTicks : Int64 := 10000000000000
  deriving DecidableEq

/-- `PreTradeRisk::check_add`: the reason of a refusal. The notional value is a
machine word and wraps like one. -/
def checkAdd (limits : RiskLimits) (cmd : AddOrder) : Option Bytes :=
  if cmd.quantity ≤ 0 then some (ascii "RISK_QTY_NON_POSITIVE")
  else if limits.maxOrderQuantity < cmd.quantity then some (ascii "RISK_QTY_TOO_LARGE")
  else if cmd.timeInForce ≠ .market then
    if cmd.priceTicks < limits.minPriceTicks ∨ limits.maxPriceTicks < cmd.priceTicks then
      some (ascii "RISK_PRICE_OUT_OF_RANGE")
    else if limits.maxNotionalTicks < cmd.priceTicks * cmd.quantity then
      some (ascii "RISK_NOTIONAL_EXCEEDED")
    else none
  else none

/-- The three vectors of the source have one entry per shard. -/
structure ShardedMatchingEngine (shardCount : Nat) where
  engines : Fin shardCount → MatchingEngine
  wals : Fin shardCount → WalStore
  limits : RiskLimits := {}
  lastIngressSequence : Fin shardCount → Int64

/-- What recovery can throw: a parse error, or an engine error. -/
inductive RecoveryFault where
  | json (error : JsonError)
  | engine (fault : Fault)
  deriving DecidableEq

def serializeAdd (cmd : AddOrder) : Json :=
  .object [(ascii "symbol", .string cmd.symbol), (ascii "order_id", .int cmd.orderId),
    (ascii "participant_id", .string cmd.participantId), (ascii "side", .string cmd.side.toString),
    (ascii "price_ticks", .int cmd.priceTicks), (ascii "quantity", .int cmd.quantity),
    (ascii "time_in_force", .string cmd.timeInForce.toString), (ascii "stp", .string cmd.stp.toString)]

def serializeReplace (cmd : ReplaceOrder) : Json :=
  .object [(ascii "symbol", .string cmd.symbol), (ascii "order_id", .int cmd.orderId),
    (ascii "new_order_id", .int cmd.newOrderId), (ascii "new_price_ticks", .int cmd.newPriceTicks),
    (ascii "new_quantity", .int cmd.newQuantity),
    (ascii "time_in_force", .string cmd.timeInForce.toString)]

def serializeCancel (cmd : CancelOrder) : Json :=
  .object [(ascii "symbol", .string cmd.symbol), (ascii "order_id", .int cmd.orderId)]

def record (type : String) (command : Json) : Json :=
  .object [(ascii "type", .string (ascii type)), (ascii "command", command)]

def riskRecord (cmd : AddOrder) (reason : Bytes) : Json :=
  .object [(ascii "type", .string (ascii "risk_reject")), (ascii "command", serializeAdd cmd),
    (ascii "reason", .string reason)]

/-- `apply_record`: absent fields read as empty or zero, and a record of another
type, a risk rejection among them, does nothing. -/
def applyRecord (engine : MatchingEngine) (record : Json) : Except Fault MatchingEngine :=
  match record.find (ascii "type"), record.find (ascii "command") with
  | some type, some command =>
    if command.isObject then
      let getStr (key : String) : Bytes := ((command.find (ascii key)).map Json.asString).getD []
      let getInt (key : String) : Int64 := ((command.find (ascii key)).map Json.asInt).getD 0
      if type.asString = ascii "add" then do
        let (engine, _) ← engine.add {
          symbol := getStr "symbol"
          orderId := getInt "order_id"
          participantId := getStr "participant_id"
          side := sideFromString (getStr "side")
          priceTicks := getInt "price_ticks"
          quantity := getInt "quantity"
          timeInForce := tifFromString (getStr "time_in_force")
          stp := match command.find (ascii "stp") with
            | some stp => stpFromString stp.asString
            | none => .none }
        .ok engine
      else if type.asString = ascii "cancel" then do
        let (engine, _) ← engine.cancel { symbol := getStr "symbol", orderId := getInt "order_id" }
        .ok engine
      else if type.asString = ascii "replace" then do
        let (engine, _) ← engine.replace {
          symbol := getStr "symbol"
          orderId := getInt "order_id"
          newOrderId := getInt "new_order_id"
          newPriceTicks := getInt "new_price_ticks"
          newQuantity := getInt "new_quantity"
          timeInForce := tifFromString (getStr "time_in_force") }
        .ok engine
      else .ok engine
    else .error (.matchingEngineError (ascii "invalid wal record"))
  | _, _ => .error (.matchingEngineError (ascii "invalid wal record"))

/-- The 64-bit FNV-1a hash. -/
def fnv1a (symbol : Bytes) : UInt64 :=
  symbol.foldl (fun hash c => (hash ^^^ c.toUInt64) * 1099511628211) 1469598103934665603

namespace ShardedMatchingEngine
variable {shardCount : Nat} [NeZero shardCount]

/-- The constructor, on the files each shard finds in the directory. -/
def create (limits : RiskLimits) (files : Fin shardCount → Files) : ShardedMatchingEngine shardCount where
  engines _ := {}
  wals shard := .open_ (files shard)
  limits := limits
  lastIngressSequence _ := 0

/-- `shard`. -/
def shardOf (symbol : Bytes) : Fin shardCount := Fin.ofNat shardCount (fnv1a symbol).toNat

def setEngine (state : ShardedMatchingEngine shardCount) (shard : Fin shardCount) (engine : MatchingEngine) :
    ShardedMatchingEngine shardCount :=
  { state with engines := fun other => if other = shard then engine else state.engines other }

def setWal (state : ShardedMatchingEngine shardCount) (shard : Fin shardCount) (wal : WalStore) :
    ShardedMatchingEngine shardCount :=
  { state with wals := fun other => if other = shard then wal else state.wals other }

/-- `wals_[s].append(record)`. -/
def log (state : ShardedMatchingEngine shardCount) (shard : Fin shardCount) (record : Json) :
    ShardedMatchingEngine shardCount :=
  state.setWal shard ((state.wals shard).append record)

/-- `validate_ingress`: a number not above the last one is answered with a
rejection, a higher one is remembered. -/
def validateIngress (state : ShardedMatchingEngine shardCount) (shard : Fin shardCount)
    (ingressSequence : Option Int64) (symbol : Bytes) (orderId : Int64) :
    ShardedMatchingEngine shardCount × Option ExecEvent :=
  match ingressSequence with
  | none => (state, none)
  | some number =>
    if number ≤ state.lastIngressSequence shard then
      let (engine, rejected) := (state.engines shard).reject symbol orderId (ascii "OUT_OF_ORDER_INGRESS")
      (state.setEngine shard engine, some rejected)
    else
      ({ state with lastIngressSequence := fun other =>
          if other = shard then number else state.lastIngressSequence other }, none)

def add (state : ShardedMatchingEngine shardCount) (cmd : AddOrder) (ingressSequence : Option Int64) :
    Except Fault (ShardedMatchingEngine shardCount × Outcome) :=
  let shard := shardOf cmd.symbol
  match state.validateIngress shard ingressSequence cmd.symbol cmd.orderId with
  | (state, some rejected) => .ok (state, ⟨[rejected], []⟩)
  | (state, none) =>
    match checkAdd state.limits cmd with
    | some reason =>
      let (engine, rejected) := (state.engines shard).reject cmd.symbol cmd.orderId reason
      .ok ((state.setEngine shard engine).log shard (riskRecord cmd reason), ⟨[rejected], []⟩)
    | none => do
      let state := state.log shard (record "add" (serializeAdd cmd))
      let (engine, outcome) ← (state.engines shard).add cmd
      .ok (state.setEngine shard engine, outcome)

def cancel (state : ShardedMatchingEngine shardCount) (cmd : CancelOrder) (ingressSequence : Option Int64) :
    Except Fault (ShardedMatchingEngine shardCount × Outcome) :=
  let shard := shardOf cmd.symbol
  match state.validateIngress shard ingressSequence cmd.symbol cmd.orderId with
  | (state, some rejected) => .ok (state, ⟨[rejected], []⟩)
  | (state, none) => do
    let state := state.log shard (record "cancel" (serializeCancel cmd))
    let (engine, events) ← (state.engines shard).cancel cmd
    .ok (state.setEngine shard engine, ⟨events, []⟩)

def replace (state : ShardedMatchingEngine shardCount) (cmd : ReplaceOrder)
    (ingressSequence : Option Int64) : Except Fault (ShardedMatchingEngine shardCount × Outcome) :=
  let shard := shardOf cmd.symbol
  match state.validateIngress shard ingressSequence cmd.symbol cmd.orderId with
  | (state, some rejected) => .ok (state, ⟨[rejected], []⟩)
  | (state, none) => do
    let state := state.log shard (record "replace" (serializeReplace cmd))
    let (engine, outcome) ← (state.engines shard).replace cmd
    .ok (state.setEngine shard engine, outcome)

def snapshotAll (state : ShardedMatchingEngine shardCount) : ShardedMatchingEngine shardCount :=
  { state with wals := fun shard => (state.wals shard).saveSnapshot (state.engines shard).snapshot }

/-- One pass of the loop of `restore_from_snapshots`. -/
def restoreShard (state : ShardedMatchingEngine shardCount) (shard : Fin shardCount) :
    Except RecoveryFault (ShardedMatchingEngine shardCount) := do
  let snap ← (state.wals shard).loadSnapshot.mapError .json
  match snap with
  | some snap => do
    let engine ← ((state.engines shard).loadSnapshot snap).mapError .engine
    .ok (state.setEngine shard engine)
  | none => .ok state

/-- `restore_from_snapshots`. -/
def restoreFromSnapshots (state : ShardedMatchingEngine shardCount) :
    Except RecoveryFault (ShardedMatchingEngine shardCount) :=
  (List.finRange shardCount).foldlM restoreShard state

/-- What destroying the engine leaves in the directory: every store is closed. -/
def shutdown (state : ShardedMatchingEngine shardCount) (shard : Fin shardCount) : Files :=
  (state.wals shard).close.files

/-- The engine a store's snapshot and log lead to. -/
def rebuild (wal : WalStore) : Except RecoveryFault (WalStore × MatchingEngine) := do
  let snap ← wal.loadSnapshot.mapError .json
  let rebuilt ← match snap with
    | some snap => (({} : MatchingEngine).loadSnapshot snap).mapError .engine
    | none => .ok {}
  let (wal, records) ← wal.replayCommands.mapError .json
  let rebuilt ← (records.foldlM applyRecord rebuilt).mapError .engine
  .ok (wal, rebuilt)

/-- `replay_shard`. Replaying flushes the shard's log. -/
def replayShard (state : ShardedMatchingEngine shardCount) (shard : Fin shardCount) :
    Except RecoveryFault (ShardedMatchingEngine shardCount × MatchingEngine) := do
  let (wal, rebuilt) ← rebuild (state.wals shard)
  .ok (state.setWal shard wal, rebuilt)

/-- One call from outside. -/
inductive Call where
  | add (cmd : AddOrder) (ingressSequence : Option Int64)
  | cancel (cmd : CancelOrder) (ingressSequence : Option Int64)
  | replace (cmd : ReplaceOrder) (ingressSequence : Option Int64)
  | snapshotAll
  deriving DecidableEq

def apply (state : ShardedMatchingEngine shardCount) :
    Call → Except Fault (ShardedMatchingEngine shardCount × Outcome)
  | .add cmd ingressSequence => state.add cmd ingressSequence
  | .cancel cmd ingressSequence => state.cancel cmd ingressSequence
  | .replace cmd ingressSequence => state.replace cmd ingressSequence
  | .snapshotAll => .ok (state.snapshotAll, ⟨[], []⟩)

/-- A call's sequence number, if it has one, is above the shard's last. -/
def inOrder (state : ShardedMatchingEngine shardCount) (symbol : Bytes) (ingressSequence : Option Int64) : Bool :=
  ingressSequence.all fun number => ! decide (number ≤ state.lastIngressSequence (shardOf symbol))

/-- The command a call gets through to its shard's engine, past the sequence
and the risk checks. -/
def accepted (state : ShardedMatchingEngine shardCount) : Call → Option Command
  | .add cmd number =>
    if state.inOrder cmd.symbol number ∧ checkAdd state.limits cmd = none then some (.add cmd) else none
  | .cancel cmd number => if state.inOrder cmd.symbol number then some (.cancel cmd) else none
  | .replace cmd number => if state.inOrder cmd.symbol number then some (.replace cmd) else none
  | .snapshotAll => none

end ShardedMatchingEngine
end Exchange
