import Exchange.Fairness
import Exchange.PipelineLinear

/-! The pipeline does not get stuck. Queues may be full, pushes may fail and be
tried again: under every fair schedule that does not stop the workers, every
submission is answered, once and in the order of the submissions to its shard. -/
namespace Exchange.PipelineProgress
open Fairness PipelineInbound PipelineOutbound
open ShardedMatchingEngine (shardOf)
open ThreadedShardedEngine (step)

variable {shardCount : Nat} [NeZero shardCount] {state next : ThreadedShardedEngine shardCount}
  {action : Action shardCount} {observed : List (Option (Observation shardCount))}
  {shown : Option (Observation shardCount)}

/-! ## What a turn does -/

/-- The action has nothing to do here. -/
def Idles (state : ThreadedShardedEngine shardCount) : Action shardCount → Prop
  | .push => state.producer = none
  | .worker own => state.workers own = .exited
  | .collect => state.consumer = none
  | .drain => False
  | .submit _ _ => state.producer.isSome
  | .start => state.running = true
  | .stop | .join => True

/-- One turn of a thread, while no one stops the workers. -/
inductive Turn (state : ThreadedShardedEngine shardCount) :
    Action shardCount → ThreadedShardedEngine shardCount → Option (Observation shardCount) → Prop where
  | nothing {action : Action shardCount} (idles : Idles state action) : Turn state action state none
  | submits (command : Command) (number : Option Int64) (free : state.producer = none) :
      Turn state (.submit command number)
        { state with
          nextCorrelation := state.nextCorrelation + 1
          producer := some (shardOf command.symbol, ⟨command, number, state.nextCorrelation + 1⟩) }
        (some (.submitted ⟨command, number, state.nextCorrelation + 1⟩))
  | stores {own : Fin shardCount} {msg : CommandMsg} {queue : SpscQueue CommandMsg}
      (busy : state.producer = some (own, msg)) (pushed : (state.inbound own).push msg = some queue) :
      Turn state .push { state with inbound := Function.update state.inbound own queue, producer := none } none
  | refused {own : Fin shardCount} {msg : CommandMsg} (busy : state.producer = some (own, msg))
      (full : (state.inbound own).push msg = none) :
      Turn state .push { state with producer := some (own, Movable.moved msg) } none
  | polls {own : Fin shardCount} (at_ : state.workers own = .atLoop) :
      Turn state (.worker own) (state.setWorker own .polling) none
  | loops {own : Fin shardCount} (at_ : state.workers own = .polling) (empty : (state.inbound own).pop = none) :
      Turn state (.worker own) (state.setWorker own .atLoop) none
  | takes {own : Fin shardCount} {msg : CommandMsg} {queue : SpscQueue CommandMsg}
      (at_ : state.workers own = .polling) (popped : (state.inbound own).pop = some (msg, queue)) :
      Turn state (.worker own)
        { state.setWorker own (.holding msg) with inbound := Function.update state.inbound own queue }
        (some (.took own msg))
  | calls {own : Fin shardCount} {msg : CommandMsg} {engine : ShardedMatchingEngine shardCount} {outcome : Outcome}
      (at_ : state.workers own = .holding msg) (called : state.engine.apply msg.call = .ok (engine, outcome)) :
      Turn state (.worker own) { state.setWorker own (.finished (msg.result outcome)) with engine }
        (some (.applied own msg outcome))
  | offers {own : Fin shardCount} {result : ResultMsg} (at_ : state.workers own = .finished result) :
      Turn state (.worker own) (state.setWorker own (.publishing result)) none
  | publishes {own : Fin shardCount} {result : ResultMsg} {queue : SpscQueue ResultMsg}
      (at_ : state.workers own = .publishing result) (pushed : (state.outbound own).push result = some queue) :
      Turn state (.worker own)
        { state.setWorker own .atLoop with outbound := Function.update state.outbound own queue } none
  | withholds {own : Fin shardCount} {result : ResultMsg} (at_ : state.workers own = .publishing result)
      (full : (state.outbound own).push result = none) :
      Turn state (.worker own) (state.setWorker own (.finished (Movable.moved result))) none
  | drains : Turn state .drain { state with consumer := some (state.consumer.getD 0) } none
  | collects {own : Fin shardCount} {result : ResultMsg} {queue : SpscQueue ResultMsg}
      (at_ : state.consumer = some own.val) (popped : (state.outbound own).pop = some (result, queue)) :
      Turn state .collect { state with outbound := Function.update state.outbound own queue }
        (some (.drained own result))
  | passes {place : Nat} (at_ : state.consumer = some place)
      (empty : ∀ inside : place < shardCount, (state.outbound ⟨place, inside⟩).pop = none) :
      Turn state .collect { state with consumer := if place < shardCount then some (place + 1) else none } none
  | starts (down : state.running = false) :
      Turn state .start { state with running := true, workers := fun _ => .atLoop } none

/-- No one is stopping the workers, and they are there exactly while the flag is up. -/
structure Open (state : ThreadedShardedEngine shardCount) : Prop where
  sound : Sound state
  notStopping : state.stopping = false
  exited : ∀ shard, state.workers shard = .exited ↔ state.running = false

omit [NeZero shardCount] in
theorem open_setWorker (opened : Open state) {own : Fin shardCount} {worker : WorkerState}
    (inside : state.workers own ≠ .exited) (stays : worker ≠ .exited) (shard : Fin shardCount) :
    (state.setWorker own worker).workers shard = .exited ↔ state.running = false := by
  by_cases here : shard = own
  · subst here
    have up := (opened.exited shard).not.mp inside
    simp [ThreadedShardedEngine.setWorker, stays, up]
  · simp only [ThreadedShardedEngine.setWorker, Function.update_of_ne here]
    exact opened.exited shard

theorem open_turn (opened : Open state) (turn : Turn state action next shown) : Open next := by
  cases turn with
  | nothing => exact opened
  | submits | stores | refused | drains | collects | passes =>
    exact ⟨opened.sound, opened.notStopping, opened.exited⟩
  | polls at_ | loops at_ | takes at_ | offers at_ | publishes at_ | withholds at_ =>
    exact ⟨opened.sound, opened.notStopping, open_setWorker opened (by simp [at_]) (by simp)⟩
  | @calls own msg engine outcome at_ called =>
    obtain ⟨engine', outcome', called', sound⟩ := call_sound opened.sound msg
    rw [called] at called'
    cases called'
    exact ⟨sound, opened.notStopping, open_setWorker opened (by simp [at_]) (by simp)⟩
  | starts down => exact ⟨opened.sound, opened.notStopping, by simp⟩

theorem turn_worker (opened : Open state) (own : Fin shardCount) :
    ∃ next shown, state.workerStep own = .ok (next, shown) ∧ Turn state (.worker own) next shown := by
  have up : state.workers own ≠ .exited → state.running = true := fun inside => by
    simpa using (opened.exited own).not.mp inside
  unfold ThreadedShardedEngine.workerStep
  cases at_ : state.workers own with
  | exited => exact ⟨_, _, rfl, .nothing at_⟩
  | atLoop =>
    rw [up (by simp [at_])]
    exact ⟨_, _, rfl, .polls at_⟩
  | polling =>
    cases popped : (state.inbound own).pop with
    | none => exact ⟨_, _, rfl, .loops at_ popped⟩
    | some taken => exact ⟨_, _, rfl, .takes at_ popped⟩
  | holding msg =>
    obtain ⟨engine, outcome, called, -⟩ := call_sound opened.sound msg
    exact ⟨_, _, by simp only [called, bind, Except.bind], .calls at_ called⟩
  | finished result =>
    rw [up (by simp [at_])]
    exact ⟨_, _, rfl, .offers at_⟩
  | publishing result =>
    cases pushed : (state.outbound own).push result with
    | none => exact ⟨_, _, by simp only [pushed], .withholds at_ pushed⟩
    | some queue => exact ⟨_, _, by simp only [pushed], .publishes at_ pushed⟩

theorem turn_collect (state : ThreadedShardedEngine shardCount) :
    ∃ next shown, state.collect = (next, shown) ∧ Turn state .collect next shown := by
  cases at_ : state.consumer with
  | none => exact ⟨state, none, by simp only [ThreadedShardedEngine.collect, at_], .nothing at_⟩
  | some place =>
    by_cases inside : place < shardCount
    · cases popped : (state.outbound ⟨place, inside⟩).pop with
      | none =>
        refine ⟨_, _, ?_, .passes at_ fun _ => popped⟩
        simp only [ThreadedShardedEngine.collect, at_, inside, popped, ↓reduceDIte, ↓reduceIte]
      | some taken =>
        have here : state.consumer = some (⟨place, inside⟩ : Fin shardCount).val := at_
        refine ⟨_, _, ?_, .collects here popped⟩
        simp only [ThreadedShardedEngine.collect, at_, inside, popped, ↓reduceDIte]
    · refine ⟨_, _, ?_, .passes at_ fun within => absurd within inside⟩
      simp only [ThreadedShardedEngine.collect, at_, inside, ↓reduceDIte, ↓reduceIte]

/-- Every action but `stop` is such a turn. -/
theorem turn_of_step (opened : Open state) (going : action ≠ .stop) :
    ∃ next shown, step state action = .ok (next, shown) ∧ Turn state action next shown := by
  cases action with
  | submit command number =>
    rw [step, ThreadedShardedEngine.submit]
    cases producer : state.producer with
    | some pending => exact ⟨_, _, rfl, .nothing (by simp [Idles, producer])⟩
    | none => exact ⟨_, _, rfl, .submits command number producer⟩
  | push =>
    rw [step, ThreadedShardedEngine.push]
    cases busy : state.producer with
    | none => exact ⟨_, _, rfl, .nothing busy⟩
    | some pending =>
      cases pushed : (state.inbound pending.1).push pending.2 with
      | none => exact ⟨_, _, by simp only [pushed], .refused busy pushed⟩
      | some queue => exact ⟨_, _, by simp only [pushed], .stores busy pushed⟩
  | worker own => exact turn_worker opened own
  | drain => exact ⟨_, _, rfl, .drains⟩
  | collect =>
    obtain ⟨next, shown, collected, turn⟩ := turn_collect state
    exact ⟨next, shown, congrArg Except.ok collected, turn⟩
  | start =>
    rw [step, ThreadedShardedEngine.start]
    cases running : state.running with
    | true => exact ⟨_, _, by simp, .nothing running⟩
    | false => exact ⟨_, _, by simp [opened.notStopping], .starts running⟩
  | stop => exact absurd rfl going
  | join =>
    rw [step, ThreadedShardedEngine.join, opened.notStopping]
    exact ⟨_, _, by simp, .nothing trivial⟩

/-! ## Every submission is somewhere -/

/-- The correlation ids a worker has in hand. -/
def inHand : WorkerState → List UInt64
  | .holding msg => [msg.correlation]
  | .finished result | .publishing result => [result.correlation]
  | .exited | .atLoop | .polling => []

/-- The ids of a shard that are between `submit` and `drain`, the oldest first. -/
def onTheWay (state : ThreadedShardedEngine shardCount) (shard : Fin shardCount) : List UInt64 :=
  (state.outbound shard).contents.map ResultMsg.correlation ++ (inHand (state.workers shard) ++
    ((state.inbound shard).contents.map CommandMsg.correlation ++
      (waitingFor state shard).map CommandMsg.correlation))

/-- The ids submitted to a shard are those drained from it and those on their way. -/
def Tracked (state : ThreadedShardedEngine shardCount) (observed : List (Option (Observation shardCount))) : Prop :=
  ∀ shard, (submittedTo shard observed).map CommandMsg.correlation =
    (drainedFrom shard observed).map ResultMsg.correlation ++ onTheWay state shard

theorem moved_correlation (msg : CommandMsg) : (Movable.moved msg).correlation = msg.correlation := rfl

theorem moved_result_correlation (result : ResultMsg) : (Movable.moved result).correlation = result.correlation := rfl

omit [NeZero shardCount] in
theorem inHand_setWorker {own : Fin shardCount} {worker : WorkerState}
    (same : inHand worker = inHand (state.workers own)) (shard : Fin shardCount) :
    onTheWay (state.setWorker own worker) shard = onTheWay state shard := by
  by_cases here : shard = own
  · subst here
    simp [onTheWay, ThreadedShardedEngine.setWorker, same, waitingFor]
  · simp [onTheWay, ThreadedShardedEngine.setWorker, Function.update_of_ne here, waitingFor]

/-- A turn takes ids in at one end and lets them out at the other. -/
theorem onTheWay_turn (opened : Open state) (turn : Turn state action next shown) (shard : Fin shardCount) :
    (drainedFrom shard [shown]).map ResultMsg.correlation ++ onTheWay next shard =
      onTheWay state shard ++ (submittedTo shard [shown]).map CommandMsg.correlation := by
  cases turn with
  | nothing | drains | passes => simp [drainedFrom, submittedTo, onTheWay, waitingFor]
  | submits command number free =>
    by_cases here : shardOf command.symbol = shard
    · simp [drainedFrom, submittedTo, onTheWay, waitingFor, free, here]
    · simp [drainedFrom, submittedTo, onTheWay, waitingFor, free, here]
  | @stores own msg queue busy pushed =>
    have grown := SpscQueue.push_contents pushed
    by_cases here : own = shard
    · subst here
      simp [drainedFrom, submittedTo, onTheWay, waitingFor, busy, grown]
    · simp [drainedFrom, submittedTo, onTheWay, waitingFor, busy, here, Function.update_of_ne (Ne.symm here)]
  | @refused own msg busy full =>
    by_cases here : own = shard
    · simp [drainedFrom, submittedTo, onTheWay, waitingFor, busy, here, moved_correlation]
    · simp [drainedFrom, submittedTo, onTheWay, waitingFor, busy, here]
  | polls at_ | loops at_ | offers at_ | withholds at_ =>
    rw [inHand_setWorker (by simp [at_, inHand, moved_result_correlation])]
    simp [drainedFrom, submittedTo]
  | @takes own msg queue at_ popped =>
    have shrunk := SpscQueue.pop_contents popped
    by_cases here : shard = own
    · subst here
      simp [drainedFrom, submittedTo, onTheWay, waitingFor, ThreadedShardedEngine.setWorker, at_, inHand, shrunk]
    · simp [drainedFrom, submittedTo, onTheWay, waitingFor, ThreadedShardedEngine.setWorker,
        Function.update_of_ne here]
  | @calls own msg engine outcome at_ called =>
    by_cases here : shard = own
    · subst here
      simp [drainedFrom, submittedTo, onTheWay, waitingFor, ThreadedShardedEngine.setWorker, at_, inHand,
        CommandMsg.result]
    · simp [drainedFrom, submittedTo, onTheWay, waitingFor, ThreadedShardedEngine.setWorker,
        Function.update_of_ne here]
  | @publishes own result queue at_ pushed =>
    have grown := SpscQueue.push_contents pushed
    by_cases here : shard = own
    · subst here
      simp [drainedFrom, submittedTo, onTheWay, waitingFor, ThreadedShardedEngine.setWorker, at_, inHand, grown]
    · simp [drainedFrom, submittedTo, onTheWay, waitingFor, ThreadedShardedEngine.setWorker,
        Function.update_of_ne here]
  | @collects own result queue at_ popped =>
    have shrunk := SpscQueue.pop_contents popped
    by_cases here : own = shard
    · subst here
      simp [drainedFrom, submittedTo, onTheWay, waitingFor, shrunk]
    · simp [drainedFrom, submittedTo, onTheWay, waitingFor, here, Function.update_of_ne (Ne.symm here)]
  | starts down =>
    have left := (opened.exited shard).mpr down
    simp [drainedFrom, submittedTo, onTheWay, waitingFor, left, inHand]

theorem tracked_turn (opened : Open state) (tracked : Tracked state observed)
    (turn : Turn state action next shown) : Tracked next (observed ++ [shown]) := by
  intro shard
  rw [submittedTo_append, drainedFrom_append, List.map_append, List.map_append, tracked shard, List.append_assoc,
    List.append_assoc, onTheWay_turn opened turn shard]

/-! ## Work -/

/-- How many more turns what a worker has in hand needs to be collected. -/
def stage : WorkerState → Nat
  | .holding _ => 3
  | .finished _ | .publishing _ => 2
  | .exited | .atLoop | .polling => 0

def load (state : ThreadedShardedEngine shardCount) (shard : Fin shardCount) : Nat :=
  4 * (state.inbound shard).contents.length + stage (state.workers shard) +
    (state.outbound shard).contents.length

/-- The turns that are needed, counting those in which something moves on. -/
def work (state : ThreadedShardedEngine shardCount) : Nat :=
  (if state.producer.isSome then 5 else 0) + ∑ shard, load state shard

/-- Nothing has moved on. -/
structure Quiet (state next : ThreadedShardedEngine shardCount) : Prop where
  inbound : next.inbound = state.inbound
  outbound : next.outbound = state.outbound
  target : next.producer.map Prod.fst = state.producer.map Prod.fst
  stages : ∀ shard, stage (next.workers shard) = stage (state.workers shard)

omit [NeZero shardCount] in
theorem sum_changed {before after : Fin shardCount → Nat} (own : Fin shardCount)
    (others : ∀ shard ≠ own, after shard = before shard) :
    ∑ shard, after shard + before own = ∑ shard, before shard + after own := by
  have rest : ∑ shard ∈ Finset.univ.erase own, after shard = ∑ shard ∈ Finset.univ.erase own, before shard :=
    Finset.sum_congr rfl fun shard member => others shard (Finset.ne_of_mem_erase member)
  rw [← Finset.add_sum_erase _ after (Finset.mem_univ own),
    ← Finset.add_sum_erase _ before (Finset.mem_univ own), rest]
  omega

omit [NeZero shardCount] in
/-- One shard has less to do and the others the same. -/
theorem work_less (producer : next.producer = state.producer) (own : Fin shardCount)
    (others : ∀ shard ≠ own, load next shard = load state shard) (less : load next own < load state own) :
    work next < work state := by
  have sums := sum_changed own others
  rw [work, work, producer]
  omega

omit [NeZero shardCount] in
theorem work_quiet (quiet : Quiet state next) : work next = work state := by
  have waiting : next.producer.isSome = state.producer.isSome := by
    rw [← Option.isSome_map, quiet.target, Option.isSome_map]
  rw [work, work, waiting]
  simp only [load, quiet.inbound, quiet.outbound, quiet.stages]

omit [NeZero shardCount] in
theorem quiet_setWorker {own : Fin shardCount} {worker : WorkerState}
    (same : stage worker = stage (state.workers own)) : Quiet state (state.setWorker own worker) where
  inbound := rfl
  outbound := rfl
  target := rfl
  stages shard := by
    by_cases here : shard = own
    · subst here
      simpa [ThreadedShardedEngine.setWorker] using same
    · simp [ThreadedShardedEngine.setWorker, Function.update_of_ne here]

/-- A turn without a submission moves something on or nothing. -/
theorem work_turn (opened : Open state) (turn : Turn state action next shown)
    (noSubmit : ∀ command number, action ≠ .submit command number) :
    work next < work state ∨ Quiet state next := by
  cases turn with
  | nothing => exact .inr ⟨rfl, rfl, rfl, fun _ => rfl⟩
  | submits command number => exact absurd rfl (noSubmit command number)
  | @stores own msg queue busy pushed =>
    left
    have grown := SpscQueue.push_contents pushed
    have sums := @sum_changed _ (load state)
      (load { state with inbound := Function.update state.inbound own queue, producer := none }) own
      fun shard other => by simp [load, Function.update_of_ne other]
    simp only [load, Function.update_self, grown, List.length_append, List.length_cons, List.length_nil] at sums
    simp only [work, load, busy, Option.isSome_none, Option.isSome_some, Bool.false_eq_true, ↓reduceIte]
    omega
  | refused busy => exact .inr ⟨rfl, rfl, by simp [busy], fun _ => rfl⟩
  | polls at_ | loops at_ | offers at_ | withholds at_ => exact .inr (quiet_setWorker (by simp [at_, stage]))
  | @takes own msg queue at_ popped =>
    refine .inl (work_less rfl own (fun shard other => ?_) ?_)
    · simp [load, ThreadedShardedEngine.setWorker, Function.update_of_ne other]
    · simp [load, ThreadedShardedEngine.setWorker, SpscQueue.pop_contents popped, at_, stage]
      omega
  | @calls own msg engine outcome at_ called =>
    refine .inl (work_less rfl own (fun shard other => ?_) ?_)
    · simp [load, ThreadedShardedEngine.setWorker, Function.update_of_ne other]
    · simp [load, ThreadedShardedEngine.setWorker, at_, stage]
  | @publishes own result queue at_ pushed =>
    refine .inl (work_less rfl own (fun shard other => ?_) ?_)
    · simp [load, ThreadedShardedEngine.setWorker, Function.update_of_ne other]
    · simp [load, ThreadedShardedEngine.setWorker, SpscQueue.push_contents pushed, at_, stage]
      omega
  | drains => exact .inr ⟨rfl, rfl, rfl, fun _ => rfl⟩
  | @collects own result queue at_ popped =>
    refine .inl (work_less rfl own (fun shard other => ?_) ?_)
    · simp [load, Function.update_of_ne other]
    · simp [load, SpscQueue.pop_contents popped]
  | passes => exact .inr ⟨rfl, rfl, rfl, fun _ => rfl⟩
  | starts down =>
    refine .inr ⟨rfl, rfl, rfl, fun shard => ?_⟩
    rw [(opened.exited shard).mpr down]
    rfl

/-! ## Situations -/

/-- The workers are running, and so much is left to do. -/
structure Busy (left : Nat) (state : ThreadedShardedEngine shardCount) : Prop where
  opened : Open state
  up : state.running = true
  left : work state = left

/-- Less is left to do. -/
def LessLeft (left : Nat) (state : ThreadedShardedEngine shardCount) : Prop := work state < left

theorem up_turn (up : state.running = true) (turn : Turn state action next shown) : next.running = true := by
  cases turn <;> first | exact up | rfl

variable {left : Nat}

theorem busy_turn (busy : Busy left state) (turn : Turn state action next shown)
    (noSubmit : ∀ command number, action ≠ .submit command number) :
    LessLeft left next ∨ Busy left next ∧ Quiet state next := by
  rcases work_turn busy.opened turn noSubmit with less | quiet
  · exact .inl (busy.left ▸ less)
  · exact .inr ⟨⟨open_turn busy.opened turn, up_turn busy.up turn, (work_quiet quiet).trans busy.left⟩, quiet⟩

/-- Only a worker's own turns change what it does. -/
theorem worker_other (up : state.running = true) {own : Fin shardCount} (other : action ≠ .worker own)
    (turn : Turn state action next shown) : next.workers own = state.workers own := by
  have elsewhere : ∀ {shard : Fin shardCount}, action = .worker shard → own ≠ shard := by
    rintro shard rfl rfl
    exact other rfl
  cases turn with
  | polls | loops | takes | calls | offers | publishes | withholds =>
    simp [ThreadedShardedEngine.setWorker, Function.update_of_ne (elsewhere rfl)]
  | starts down => simp [up] at down
  | nothing | submits | stores | refused | drains | collects | passes => rfl

/-- Where a worker's own turn brings its phase down or moves something on, its
turns lead to less work. -/
theorem worker_moves {own : Fin shardCount} {holds : ThreadedShardedEngine shardCount → Prop}
    {phase : WorkerState → Nat} (busy : Busy left state) (here : holds state)
    (stays : ∀ {after : ThreadedShardedEngine shardCount}, Quiet state after → holds state → holds after)
    (helps : action = .worker own → Quiet state next → phase (next.workers own) < phase (state.workers own))
    (turn : Turn state action next shown) (noSubmit : ∀ command number, action ≠ .submit command number) :
    Moves (fun state => Busy left state ∧ holds state) (LessLeft left) (fun _ action => action = .worker own)
      (fun state => phase (state.workers own)) state action next := by
  rcases busy_turn busy turn noSubmit with less | ⟨busy', quiet⟩
  · exact .inl less
  · refine .inr ⟨⟨busy', stays quiet here⟩, ?_⟩
    by_cases own_ : action = .worker own
    · exact .inl (helps own_ quiet)
    · exact .inr ⟨congrArg phase (worker_other busy.up own_ turn), own_, fun _ helps => helps⟩

/-- A worker has a result, and its outbound queue is empty. -/
def HasResult (own : Fin shardCount) (state : ThreadedShardedEngine shardCount) : Prop :=
  stage (state.workers own) = 2 ∧ (state.outbound own).contents = []

/-- A worker has a command. -/
def HasCommand (own : Fin shardCount) (state : ThreadedShardedEngine shardCount) : Prop :=
  stage (state.workers own) = 3

/-- A worker has nothing, and there is something in its inbound queue. -/
def HasQueue (own : Fin shardCount) (state : ThreadedShardedEngine shardCount) : Prop :=
  stage (state.workers own) = 0 ∧ (state.inbound own).contents ≠ []

/-- A worker about to look at the running flag is one turn behind. -/
def atFlag : WorkerState → Nat
  | .atLoop | .finished _ => 1
  | .exited | .polling | .holding _ | .publishing _ => 0

omit [NeZero shardCount] in
/-- An empty queue has room. -/
theorem push_of_empty {α : Type} {queue : SpscQueue α} (empty : queue.contents = []) (value : α) :
    queue.push value ≠ none := by
  intro full
  have size := (queue.push_none_iff value).mp full
  obtain ⟨exponent, -, power⟩ := queue.powerOfTwo
  rw [empty, power] at size
  exact absurd size.symm (Nat.two_pow_pos exponent).ne'

omit [NeZero shardCount] in
theorem idle_worker (opened : Open state) (up : state.running = true) {own : Fin shardCount} :
    ¬ Idles state (.worker own) := by
  intro idles
  have down := (opened.exited own).mp idles
  simp [up] at down

theorem hasResult_moves {own : Fin shardCount} (busy : Busy left state) (here : HasResult own state)
    (turn : Turn state action next shown) (noSubmit : ∀ command number, action ≠ .submit command number) :
    Moves (fun state => Busy left state ∧ HasResult own state) (LessLeft left) (fun _ action => action = .worker own)
      (fun state => atFlag (state.workers own)) state action next := by
  refine worker_moves busy here (fun quiet held => ?_) ?_ turn noSubmit
  · exact ⟨(quiet.stages own).trans held.1, by rw [quiet.outbound]; exact held.2⟩
  · rintro rfl quiet
    have has := here.1
    have same := quiet.stages own
    cases turn with
    | nothing idles => exact absurd idles (idle_worker busy.opened busy.up)
    | polls at_ | loops at_ | takes at_ | calls at_ => simp [at_, stage] at has
    | offers at_ => simp [at_, ThreadedShardedEngine.setWorker, atFlag]
    | publishes at_ => simp [at_, ThreadedShardedEngine.setWorker, stage] at same
    | withholds at_ full => exact absurd full (push_of_empty here.2 _)

theorem hasCommand_moves {own : Fin shardCount} (busy : Busy left state) (here : HasCommand own state)
    (turn : Turn state action next shown) (noSubmit : ∀ command number, action ≠ .submit command number) :
    Moves (fun state => Busy left state ∧ HasCommand own state) (LessLeft left) (fun _ action => action = .worker own)
      (fun state => atFlag (state.workers own)) state action next := by
  refine worker_moves busy here (fun quiet held => (quiet.stages own).trans held) ?_ turn noSubmit
  rintro rfl quiet
  have has : stage (state.workers own) = 3 := here
  have same := quiet.stages own
  cases turn with
  | nothing idles => exact absurd idles (idle_worker busy.opened busy.up)
  | polls at_ | loops at_ | takes at_ | offers at_ | publishes at_ | withholds at_ => simp [at_, stage] at has
  | calls at_ => simp [at_, ThreadedShardedEngine.setWorker, stage] at same

theorem hasQueue_moves {own : Fin shardCount} (busy : Busy left state) (here : HasQueue own state)
    (turn : Turn state action next shown) (noSubmit : ∀ command number, action ≠ .submit command number) :
    Moves (fun state => Busy left state ∧ HasQueue own state) (LessLeft left) (fun _ action => action = .worker own)
      (fun state => atFlag (state.workers own)) state action next := by
  refine worker_moves busy here (fun quiet held => ?_) ?_ turn noSubmit
  · exact ⟨(quiet.stages own).trans held.1, by rw [quiet.inbound]; exact held.2⟩
  · rintro rfl quiet
    have has := here.1
    have same := quiet.stages own
    cases turn with
    | nothing idles => exact absurd idles (idle_worker busy.opened busy.up)
    | polls at_ => simp [at_, ThreadedShardedEngine.setWorker, atFlag]
    | loops at_ empty => exact absurd (((state.inbound own).pop_none_iff).mp empty) here.2
    | takes at_ => simp [at_, ThreadedShardedEngine.setWorker, stage] at same
    | calls at_ | offers at_ | publishes at_ | withholds at_ => simp [at_, stage] at has

/-- The producer has a message for a shard whose inbound queue is empty. -/
def Waits (own : Fin shardCount) (state : ThreadedShardedEngine shardCount) : Prop :=
  state.producer.map Prod.fst = some own ∧ (state.inbound own).contents = []

theorem waits_moves {own : Fin shardCount} (busy : Busy left state) (here : Waits own state)
    (turn : Turn state action next shown) (noSubmit : ∀ command number, action ≠ .submit command number) :
    Moves (fun state => Busy left state ∧ Waits own state) (LessLeft left) (fun _ action => action = .push)
      (fun _ => 0) state action next := by
  rcases busy_turn busy turn noSubmit with less | ⟨busy', quiet⟩
  · exact .inl less
  · obtain ⟨target, empty⟩ := here
    refine .inr ⟨⟨busy', quiet.target.trans target, by rw [quiet.inbound]; exact empty⟩,
      .inr ⟨rfl, ?_, fun _ helps => helps⟩⟩
    rintro rfl
    have same := quiet.target
    cases turn with
    | nothing idles =>
      have free : state.producer = none := idles
      simp [free] at target
    | stores busy => simp [busy] at same
    | @refused owner msg busy full =>
      simp only [busy, Option.map_some, Option.some.injEq] at target
      subst target
      exact push_of_empty empty msg full

/-! ## The round of `drain` -/

/-- How many passes `drain` is from a shard's queue. -/
def distance (own : Fin shardCount) : Option Nat → Nat
  | none => own.val + 1
  | some place => if place ≤ own.val then own.val - place else shardCount - place + own.val + 2

/-- There is something in a shard's outbound queue. -/
def Backlog (own : Fin shardCount) (state : ThreadedShardedEngine shardCount) : Prop :=
  (state.outbound own).contents ≠ []

/-- `drain` is called if it is not under way, and goes on if it is. -/
def goesRound (state : ThreadedShardedEngine shardCount) (action : Action shardCount) : Prop :=
  action = if state.consumer.isSome then .collect else .drain

theorem consumer_other (noDrain : action ≠ .drain) (noCollect : action ≠ .collect)
    (turn : Turn state action next shown) : next.consumer = state.consumer := by
  cases turn with
  | drains => exact absurd rfl noDrain
  | collects | passes => exact absurd rfl noCollect
  | nothing | submits | stores | refused | polls | loops | takes | calls | offers | publishes | withholds | starts =>
    rfl

omit [NeZero shardCount] in
/-- A pass over a queue other than this one, or the end of a round, comes closer. -/
theorem distance_passes {own : Fin shardCount} {place : Nat} (elsewhere : place ≠ own.val) :
    distance own (if place < shardCount then some (place + 1) else none) < distance own (some place) := by
  have inside := own.isLt
  by_cases within : place < shardCount
  · rw [if_pos within]
    simp only [distance]
    split <;> split <;> omega
  · rw [if_neg within]
    simp only [distance]
    split <;> omega

theorem backlog_moves {own : Fin shardCount} (busy : Busy left state) (here : Backlog own state)
    (turn : Turn state action next shown) (noSubmit : ∀ command number, action ≠ .submit command number) :
    Moves (fun state => Busy left state ∧ Backlog own state) (LessLeft left) goesRound
      (fun state => distance own state.consumer) state action next := by
  rcases busy_turn busy turn noSubmit with less | ⟨busy', quiet⟩
  · exact .inl less
  · refine .inr ⟨⟨busy', by rw [Backlog, quiet.outbound]; exact here⟩, ?_⟩
    -- A turn that leaves `drain` where it is, and is not the one that helps.
    have stands : next.consumer = state.consumer → ¬ goesRound state action →
        distance own next.consumer = distance own state.consumer ∧ ¬ goesRound state action ∧
          ∀ other, goesRound state other → goesRound next other := by
      intro same missed
      exact ⟨by rw [same], missed, fun other helps => by rw [goesRound, same]; exact helps⟩
    by_cases drain : action = .drain
    · subst drain
      cases turn with
      | nothing idles => exact idles.elim
      | drains =>
        cases at_ : state.consumer with
        | none => exact .inl (by simp [distance, at_])
        | some place => exact .inr (by simpa [at_] using stands (by simp [at_]) (by simp [goesRound, at_]))
    · by_cases collect : action = .collect
      · subst collect
        cases turn with
        | nothing idles => exact .inr (stands rfl (by simp [goesRound, show state.consumer = none from idles]))
        | @collects shard result queue at_ popped =>
          have same := congrFun quiet.outbound shard
          simp only [Function.update_self] at same
          have shrunk := congrArg List.length (SpscQueue.pop_contents popped)
          rw [same, List.length_cons] at shrunk
          omega
        | @passes place at_ empty =>
          left
          simp only [at_]
          refine distance_passes fun same => here ?_
          subst same
          exact ((state.outbound own).pop_none_iff).mp (empty own.isLt)
      · refine .inr (stands (consumer_other drain collect turn) ?_)
        rw [goesRound]
        split
        · exact collect
        · exact drain

omit [NeZero shardCount] in
/-- While there is work, something helps. -/
theorem situation_of_work (busy : Busy left state) (positive : 0 < left) :
    ∃ own, Backlog own state ∨ HasResult own state ∨ HasCommand own state ∨ HasQueue own state ∨
      Waits own state := by
  by_contra none_
  push Not at none_
  have idle : ∀ own, load state own = 0 := by
    intro own
    obtain ⟨noBacklog, noResult, noCommand, noQueue, -⟩ := none_ own
    have drained : (state.outbound own).contents = [] := not_not.mp noBacklog
    have nothing : stage (state.workers own) = 0 := by
      have noResult' : stage (state.workers own) ≠ 2 := fun two => noResult ⟨two, drained⟩
      have noCommand' : stage (state.workers own) ≠ 3 := noCommand
      cases at_ : state.workers own <;> simp [at_, stage] at noResult' noCommand' ⊢
    have taken : (state.inbound own).contents = [] := by
      by_contra filled
      exact noQueue ⟨nothing, filled⟩
    simp [load, drained, nothing, taken]
  have sum : ∑ shard, load state shard = 0 := Finset.sum_eq_zero fun shard _ => idle shard
  have total := busy.left
  rw [work, sum] at total
  cases producer : state.producer with
  | none =>
    simp [producer] at total
    omega
  | some pending =>
    have empty : (state.inbound pending.1).contents = [] := by
      have none := idle pending.1
      rw [load] at none
      exact List.length_eq_zero_iff.mp (by omega)
    exact (none_ pending.1).2.2.2.2 ⟨by simp [producer], empty⟩

/-! ## Fair schedules -/

/-- Every thread has its turn again and again. -/
structure Fair (schedule : ℕ → Action shardCount) : Prop where
  push : Recurs schedule .push
  worker : ∀ shard, Recurs schedule (.worker shard)
  drain : Recurs schedule .drain
  collect : Recurs schedule .collect

/-- The states a schedule goes through, turn by turn. -/
def Follows (schedule : ℕ → Action shardCount) (path : ℕ → ThreadedShardedEngine shardCount) : Prop :=
  ∀ moment, ∃ shown, Turn (path moment) (schedule moment) (path (moment + 1)) shown

variable {schedule : ℕ → Action shardCount} {path : ℕ → ThreadedShardedEngine shardCount} {moment : ℕ}

/-- Whatever is left to do while the workers run, less is left later. -/
theorem less_later (follows : Follows schedule path) (fair : Fair schedule)
    (noSubmit : ∀ later ≥ moment, ∀ command number, schedule later ≠ .submit command number)
    (busy : Busy left (path moment)) (positive : 0 < left) : ∃ later > moment, LessLeft left (path later) := by
  -- The turns of one thread lead out of a situation in which they help.
  have by_turns : ∀ {holds : ThreadedShardedEngine shardCount → Prop}
      {phase : ThreadedShardedEngine shardCount → ℕ}
      {helpful : ThreadedShardedEngine shardCount → Action shardCount → Prop}, holds (path moment) →
      (∀ {state next : ThreadedShardedEngine shardCount} {action : Action shardCount}
        {shown : Option (Observation shardCount)}, Busy left state → holds state → Turn state action next shown →
        (∀ command number, action ≠ .submit command number) →
        Moves (fun state => Busy left state ∧ holds state) (LessLeft left) helpful phase state action next) →
      (∀ state, ∃ action, helpful state action ∧ Recurs schedule action) →
      ∃ later > moment, LessLeft left (path later) := by
    intro holds phase helpful here moves recurs
    refine @leads_to _ _ path schedule (fun state => Busy left state ∧ holds state) _ helpful phase moment
      ⟨busy, here⟩ (fun later _ _ => ?_) (fun later after held => ?_)
    · obtain ⟨action, helps, again⟩ := recurs (path later)
      obtain ⟨turn, past, taken⟩ := recurs_after again later
      exact ⟨turn, past, taken ▸ helps⟩
    · obtain ⟨shown, turn⟩ := follows later
      exact moves held.1 held.2 turn (noSubmit later after)
  obtain ⟨own, backlog | result | command | queue | waits⟩ := situation_of_work busy positive
  · refine by_turns backlog backlog_moves fun state => ?_
    cases at_ : state.consumer with
    | none => exact ⟨.drain, by simp [goesRound, at_], fair.drain⟩
    | some place => exact ⟨.collect, by simp [goesRound, at_], fair.collect⟩
  · exact by_turns result hasResult_moves fun _ => ⟨.worker own, rfl, fair.worker own⟩
  · exact by_turns command hasCommand_moves fun _ => ⟨.worker own, rfl, fair.worker own⟩
  · exact by_turns queue hasQueue_moves fun _ => ⟨.worker own, rfl, fair.worker own⟩
  · exact by_turns waits waits_moves fun _ => ⟨.push, rfl, fair.push⟩

/-- Work that is done stays done without submissions. -/
theorem stays_done (opened : Open state) (done : work state = 0) (turn : Turn state action next shown)
    (noSubmit : ∀ command number, action ≠ .submit command number) : work next = 0 := by
  rcases work_turn opened turn noSubmit with less | quiet
  · omega
  · rw [work_quiet quiet, done]

/-- Once no more is submitted, the work of running workers is done at some time. -/
theorem done_at_last (follows : Follows schedule path) (fair : Fair schedule)
    (noSubmit : ∀ later ≥ moment, ∀ command number, schedule later ≠ .submit command number)
    (opened : ∀ later, Open (path later)) (up : ∀ later ≥ moment, (path later).running = true) :
    ∃ last, ∀ later ≥ last, work (path later) = 0 := by
  obtain ⟨last, after, done⟩ := @done_of_less (fun later => work (path later)) moment fun later after positive =>
    less_later follows fair (fun other past => noSubmit other (by omega))
      ⟨opened later, up later after, rfl⟩ positive
  refine ⟨last, holds_on done fun later past done => ?_⟩
  obtain ⟨shown, turn⟩ := follows later
  exact stays_done (opened later) done turn (noSubmit later (by omega))

omit [NeZero shardCount] in
theorem onTheWay_of_done (done : work state = 0) (shard : Fin shardCount) : onTheWay state shard = [] := by
  rw [work, Nat.add_eq_zero_iff, Finset.sum_eq_zero_iff] at done
  have idle := done.2 shard (Finset.mem_univ shard)
  rw [load, Nat.add_eq_zero_iff, Nat.add_eq_zero_iff, List.length_eq_zero_iff] at idle
  obtain ⟨⟨taken, nothing⟩, drained⟩ := idle
  have empty : (state.inbound shard).contents = [] := List.length_eq_zero_iff.mp (by omega)
  have free : state.producer = none := by
    cases producer : state.producer with
    | none => rfl
    | some pending => simp [producer] at done
  have hands : inHand (state.workers shard) = [] := by
    cases at_ : state.workers shard <;> simp [at_, stage, inHand] at nothing ⊢
  simp [onTheWay, drained, empty, hands, waitingFor, free]

/-! ## Runs -/

/-- Every run without `stop` succeeds and knows where every submission is. -/
theorem tracked_run (opened : Open state) (start : Tracked state observed) (actions : List (Action shardCount))
    (going : ∀ action ∈ actions, action ≠ .stop) : ∃ final more, run step state actions = .ok (final, more) ∧
      Open final ∧ Tracked final (observed ++ more) :=
  Runs.run_history (fun _ action => action ≠ .stop) (fun state observed => Open state ∧ Tracked state observed)
    (fun state observed action ⟨opened, tracked⟩ going => by
      obtain ⟨next, shown, stepped, turn⟩ := turn_of_step opened going
      exact ⟨next, shown, stepped, open_turn opened turn, tracked_turn opened tracked turn⟩)
    observed ⟨opened, start⟩ (Runs.meets_of_mem going)

omit [NeZero shardCount] in
theorem open_created {limits : RiskLimits} {files : Fin shardCount → Files} {capacity : UInt64}
    (created : ThreadedShardedEngine.create limits files capacity = some state) : Open state := by
  obtain ⟨sound, -, -, workers, -⟩ := create_shape created
  simp only [ThreadedShardedEngine.create, bind, Option.bind_eq_some_iff] at created
  obtain ⟨inbound, -, outbound, -, same⟩ := created
  cases same
  exact ⟨sound, rfl, by simp⟩

theorem tracked_created {limits : RiskLimits} {files : Fin shardCount → Files} {capacity : UInt64}
    (created : ThreadedShardedEngine.create limits files capacity = some state) : Tracked state [] := by
  obtain ⟨-, inbound, outbound, workers, free⟩ := create_shape created
  intro shard
  simp [submittedTo, drainedFrom, onTheWay, inbound, outbound, workers, inHand, waitingFor, free]

/-- Once started, running, as no one stops. -/
theorem up_after_start (follows : Follows schedule path)
    (starts : schedule moment = .start) : ∀ later ≥ moment + 1, (path later).running = true := by
  refine holds_on ?_ fun later _ up => ?_
  · obtain ⟨shown, turn⟩ := follows moment
    rw [starts] at turn
    generalize path (moment + 1) = next at turn
    cases turn with
    | nothing idles => exact idles
    | starts down => rfl
  · obtain ⟨shown, turn⟩ := follows later
    exact up_turn up turn

/-- The states of a schedule without `stop`. -/
theorem path_exists (opened : Open state) (tracked : Tracked state []) (going : ∀ moment, schedule moment ≠ .stop) :
    ∃ (path : ℕ → ThreadedShardedEngine shardCount) (history : ℕ → List (Option (Observation shardCount))),
      Follows schedule path ∧ ∀ moment,
      run step state (firstOf schedule moment) = .ok (path moment, history moment) ∧ Open (path moment) ∧
        Tracked (path moment) (history moment) := by
  have each : ∀ moment, ∃ reached observed, run step state (firstOf schedule moment) = .ok (reached, observed) ∧
      Open reached ∧ Tracked reached observed := by
    intro moment
    refine tracked_run opened tracked (firstOf schedule moment) fun action member => ?_
    obtain ⟨place, -, rfl⟩ := List.mem_map.mp member
    exact going place
  choose path history reached using each
  refine ⟨path, history, fun moment => ?_, reached⟩
  obtain ⟨next, shown, stepped, turn⟩ := turn_of_step (reached moment).2.1 (going moment)
  have longer := Runs.run_concat (reached moment).1 stepped
  rw [← firstOf_succ, (reached (moment + 1)).1] at longer
  obtain ⟨rfl, -⟩ := Prod.mk.inj (Except.ok.inj longer)
  exact ⟨shown, turn⟩

/-- One turn for everyone. -/
def everyone : List (Action 2) := [.push, worker0, worker1, .drain, .collect]

/-- Two bids are submitted to one slot, and then everyone has a turn, round after round. -/
def rounds (moment : ℕ) : Action 2 :=
  [Action.start, .submit (bidBy "A" 1) none, .push, .submit (bidBy "B" 2) none].getD moment
    (everyone.getD (moment % 5) .push)

theorem rounds_later {moment : ℕ} (later : 4 ≤ moment) : rounds moment = everyone.getD (moment % 5) .push :=
  List.getD_eq_default _ _ (by simpa using later)

theorem rounds_recur (place : ℕ) (small : place < 5) : Recurs rounds (everyone.getD place .push) := by
  refine Filter.frequently_atTop.mpr fun moment => ⟨5 * (moment + 1) + place, by omega, ?_⟩
  rw [rounds_later (by omega), Nat.mul_add_mod, Nat.mod_eq_of_lt small]

theorem rounds_fair : Fair rounds where
  push := rounds_recur 0 (by decide)
  worker shard := by
    rcases Fin.exists_fin_two.mp ⟨shard, rfl⟩ with rfl | rfl
    · exact rounds_recur 1 (by decide)
    · exact rounds_recur 2 (by decide)
  drain := rounds_recur 3 (by decide)
  collect := rounds_recur 4 (by decide)

theorem rounds_everyone {moment : ℕ} (later : 4 ≤ moment) : rounds moment ∈ everyone := by
  have small : moment % 5 < everyone.length := Nat.mod_lt _ (by decide)
  rw [rounds_later later, List.getD_eq_getElem _ _ small]
  exact List.getElem_mem small

end Exchange.PipelineProgress
