import Exchange.Sharded
import Exchange.SpscQueue
import Mathlib

/-! The threaded front end of `threaded_engine.hpp`: one producer thread in
`submit`, one consumer thread in `drain`, one worker per shard, and a thread
that starts and stops the workers. An action is one step of one thread, up to
its next access to something shared, so a list of actions is an interleaving.
A push that fails has still taken its argument: `std::move` fills the by-value
parameter of `push`, and the caller retries with what is left. -/
namespace Exchange

structure CommandMsg where
  command : Command
  ingressSequence : Option Int64
  correlation : UInt64
  deriving DecidableEq

/-- A default message holds the default of the first command. -/
instance : Inhabited CommandMsg where
  default := ⟨.add { symbol := [], participantId := [] }, none, 0⟩

structure ResultMsg where
  correlation : UInt64
  events : List ExecEvent
  trades : List Trade
  deriving DecidableEq, Inhabited

/-- A command whose strings were moved out. -/
def Command.moved : Command → Command
  | .add cmd => .add { cmd with symbol := [], participantId := [] }
  | .cancel cmd => .cancel { cmd with symbol := [] }
  | .replace cmd => .replace { cmd with symbol := [] }

instance : Movable CommandMsg where
  moved msg := { msg with command := msg.command.moved }

instance : Movable ResultMsg where
  moved result := { result with events := [], trades := [] }

/-- Where a worker is in `run_worker`. -/
inductive WorkerState where
  /-- There is no thread. -/
  | exited
  /-- At the head of the outer loop. -/
  | atLoop
  /-- The flag was up; the inbound queue is tried next. -/
  | polling
  /-- A command was taken; the engine is called next. -/
  | holding (msg : CommandMsg)
  /-- At the head of the publishing loop. -/
  | finished (result : ResultMsg)
  /-- The flag was up; the outbound queue is tried next. -/
  | publishing (result : ResultMsg)
  deriving DecidableEq

structure ThreadedShardedEngine (shardCount : Nat) where
  engine : ShardedMatchingEngine shardCount
  inbound : Fin shardCount → SpscQueue CommandMsg
  outbound : Fin shardCount → SpscQueue ResultMsg
  workers : Fin shardCount → WorkerState
  running : Bool
  nextCorrelation : UInt64
  /-- In `submit`, with the target shard and the message as it is now. -/
  producer : Option (Fin shardCount × CommandMsg)
  /-- In `drain`, at this queue. -/
  consumer : Option Nat
  /-- In `stop`, joining. -/
  stopping : Bool

/-- One step of one thread. -/
inductive Action (shardCount : Nat) where
  | submit (command : Command) (ingressSequence : Option Int64)
  | push
  | worker (shard : Fin shardCount)
  | drain
  | collect
  | start
  | stop
  | join

/-- What a step shows to the outside. -/
inductive Observation (shardCount : Nat) where
  | submitted (msg : CommandMsg)
  | took (shard : Fin shardCount) (msg : CommandMsg)
  | applied (shard : Fin shardCount) (msg : CommandMsg) (outcome : Outcome)
  | drained (shard : Fin shardCount) (result : ResultMsg)

/-- The engine call `std::visit` makes for a message. -/
def CommandMsg.call (msg : CommandMsg) : ShardedMatchingEngine.Call :=
  match msg.command with
  | .add cmd => .add cmd msg.ingressSequence
  | .cancel cmd => .cancel cmd msg.ingressSequence
  | .replace cmd => .replace cmd msg.ingressSequence

/-- The result message of a message and what the engine returned for it. -/
def CommandMsg.result (msg : CommandMsg) (outcome : Outcome) : ResultMsg where
  correlation := msg.correlation
  events := outcome.events
  trades := outcome.trades

namespace ThreadedShardedEngine
variable {shardCount : Nat} [NeZero shardCount]
open ShardedMatchingEngine (shardOf)

/-- The constructor; no engine where rounding the capacity does not end. -/
def create (limits : RiskLimits) (files : Fin shardCount → Files) (queueCapacity : UInt64) :
    Option (ThreadedShardedEngine shardCount) := do
  let inbound ← SpscQueue.create queueCapacity
  let outbound ← SpscQueue.create queueCapacity
  some {
    engine := ShardedMatchingEngine.create limits files
    inbound := fun _ => inbound
    outbound := fun _ => outbound
    workers := fun _ => .exited
    running := false
    nextCorrelation := 0
    producer := none
    consumer := none
    stopping := false }

/-- `submit` up to its loop. There is one producer, so none enters while it is inside. -/
def submit (state : ThreadedShardedEngine shardCount) (command : Command) (ingressSequence : Option Int64) :
    ThreadedShardedEngine shardCount × Option (Observation shardCount) :=
  match state.producer with
  | some _ => (state, none)
  | none =>
    let id := state.nextCorrelation + 1
    let msg : CommandMsg := ⟨command, ingressSequence, id⟩
    ({ state with nextCorrelation := id, producer := some (shardOf command.symbol, msg) },
      some (.submitted msg))

/-- One round of the loop in `submit`. -/
def push (state : ThreadedShardedEngine shardCount) : ThreadedShardedEngine shardCount :=
  match state.producer with
  | none => state
  | some (shard, msg) =>
    match (state.inbound shard).push msg with
    | some queue => { state with inbound := Function.update state.inbound shard queue, producer := none }
    | none => { state with producer := some (shard, Movable.moved msg) }

def setWorker (state : ThreadedShardedEngine shardCount) (shard : Fin shardCount) (worker : WorkerState) :
    ThreadedShardedEngine shardCount :=
  { state with workers := Function.update state.workers shard worker }

/-- One step of `run_worker`. An engine error would end the process. -/
def workerStep (state : ThreadedShardedEngine shardCount) (shard : Fin shardCount) :
    Except Fault (ThreadedShardedEngine shardCount × Option (Observation shardCount)) :=
  match state.workers shard with
  | .exited => .ok (state, none)
  | .atLoop => .ok (state.setWorker shard (if state.running then .polling else .exited), none)
  | .polling =>
    match (state.inbound shard).pop with
    | none => .ok (state.setWorker shard .atLoop, none)
    | some (msg, queue) =>
      .ok ({ state.setWorker shard (.holding msg) with
        inbound := Function.update state.inbound shard queue }, some (.took shard msg))
  | .holding msg => do
    let (engine, outcome) ← state.engine.apply msg.call
    .ok ({ state.setWorker shard (.finished (msg.result outcome)) with engine },
      some (.applied shard msg outcome))
  | .finished result =>
    .ok (state.setWorker shard (if state.running then .publishing result else .atLoop), none)
  | .publishing result =>
    match (state.outbound shard).push result with
    | some queue =>
      .ok ({ state.setWorker shard .atLoop with
        outbound := Function.update state.outbound shard queue }, none)
    | none => .ok (state.setWorker shard (.finished (Movable.moved result)), none)

/-- One round of the loops in `drain`. -/
def collect (state : ThreadedShardedEngine shardCount) :
    ThreadedShardedEngine shardCount × Option (Observation shardCount) :=
  match state.consumer with
  | none => (state, none)
  | some place =>
    if inside : place < shardCount then
      match (state.outbound ⟨place, inside⟩).pop with
      | some (result, queue) =>
        ({ state with outbound := Function.update state.outbound ⟨place, inside⟩ queue },
          some (.drained ⟨place, inside⟩ result))
      | none => ({ state with consumer := some (place + 1) }, none)
    else ({ state with consumer := none }, none)

/-- `start`. One thread starts and stops, so it does not start while it joins. -/
def start (state : ThreadedShardedEngine shardCount) : ThreadedShardedEngine shardCount :=
  if state.stopping || state.running then state
  else { state with running := true, workers := fun _ => .atLoop }

/-- `stop` up to the joins. -/
def stop (state : ThreadedShardedEngine shardCount) : ThreadedShardedEngine shardCount :=
  if state.running && !state.stopping then { state with running := false, stopping := true } else state

/-- The end of `stop`, once every worker has left its loop. -/
def join (state : ThreadedShardedEngine shardCount) : ThreadedShardedEngine shardCount :=
  if state.stopping ∧ ∀ shard, state.workers shard = .exited then { state with stopping := false } else state

def step (state : ThreadedShardedEngine shardCount) :
    Action shardCount → Except Fault (ThreadedShardedEngine shardCount × Option (Observation shardCount))
  | .submit command ingressSequence => .ok (state.submit command ingressSequence)
  | .push => .ok (state.push, none)
  | .worker shard => state.workerStep shard
  | .drain => .ok ({ state with consumer := some (state.consumer.getD 0) }, none)
  | .collect => .ok state.collect
  | .start => .ok (state.start, none)
  | .stop => .ok (state.stop, none)
  | .join => .ok (state.join, none)

end ThreadedShardedEngine
end Exchange
