import Exchange.PipelineInbound

/-! The way of a result out of the pipeline. The results of the commands a
worker applied are those drained, then those in its queue, then the one it still
holds; so it is in every interleaving in which no push empties a result that it
did not store and no worker finds the flag down while it has a result to
publish. -/
namespace Exchange.PipelineOutbound
open EngineInvariant PipelineInbound
open ThreadedShardedEngine (step)

variable {shardCount : Nat} {state next : ThreadedShardedEngine shardCount}
  {observed : List (Option (Observation shardCount))} {shown : Option (Observation shardCount)}

/-- The result a worker is about to push. -/
def heldBy (state : ThreadedShardedEngine shardCount) (shard : Fin shardCount) : List ResultMsg :=
  match state.workers shard with
  | .finished result | .publishing result => [result]
  | _ => []

/-- A worker with a result to publish finds the flag up, and a push that finds
its queue full has nothing to empty. -/
def PublishKeeps (state : ThreadedShardedEngine shardCount) : Action shardCount → Prop
  | .worker shard =>
    match state.workers shard with
    | .finished _ => state.running = true
    | .publishing result => ((state.outbound shard).push result).isNone → Movable.moved result = result
    | _ => True
  | _ => True

instance (state : ThreadedShardedEngine shardCount) : ∀ action, Decidable (PublishKeeps state action)
  | .worker shard =>
    match at_ : state.workers shard with
    | .finished _ => decidable_of_iff (state.running = true) (by simp only [PublishKeeps, at_])
    | .publishing result =>
      decidable_of_iff (((state.outbound shard).push result).isNone → Movable.moved result = result)
        (by simp only [PublishKeeps, at_])
    | .exited | .atLoop | .polling | .holding _ => isTrue (by simp only [PublishKeeps, at_])
  | .submit _ _ | .push | .drain | .collect | .start | .stop | .join => isTrue trivial

/-- The results of the commands a worker applied. -/
def resultsOf (shard : Fin shardCount) (observed : List (Option (Observation shardCount))) : List ResultMsg :=
  (appliedBy shard observed).map fun issued => issued.1.result issued.2

/-- Every result is drained, queued or held, in the order of the calls. -/
structure Outbound (state : ThreadedShardedEngine shardCount)
    (observed : List (Option (Observation shardCount))) : Prop where
  sound : Sound state
  flow : ∀ shard, resultsOf shard observed =
    drainedFrom shard observed ++ ((state.outbound shard).contents ++ heldBy state shard)
  stopped : state.running = false → state.stopping = false → ∀ shard, state.workers shard = .exited

/-- A step that moves no result. -/
theorem outbound_quiet (inv : Outbound state observed) (sound : Sound next)
    (queues : next.outbound = state.outbound) (held : ∀ shard, heldBy next shard = heldBy state shard)
    (stopped : next.running = false → next.stopping = false → ∀ shard, next.workers shard = .exited)
    (silent : ∀ shard, resultsOf shard [shown] = [] ∧ drainedFrom shard [shown] = []) :
    Outbound next (observed ++ [shown]) := by
  refine ⟨sound, fun shard => ?_, stopped⟩
  have before := inv.flow shard
  have nothing := silent shard
  simp only [resultsOf] at before nothing ⊢
  rw [appliedBy_append, drainedFrom_append, List.map_append, nothing.1, nothing.2, List.append_nil,
    List.append_nil, queues, held shard]
  exact before

/-- While a worker is in its loop, `stop` has not returned. -/
theorem stopped_of_active (inv : Outbound state observed) {shard : Fin shardCount}
    (active : state.workers shard ≠ .exited) (worker : WorkerState) :
    (state.setWorker shard worker).running = false → (state.setWorker shard worker).stopping = false →
      ∀ other, (state.setWorker shard worker).workers other = .exited := by
  intro down returned
  exact absurd (inv.stopped down returned shard) active

/-- What a worker holds changes with its own state only. -/
theorem heldBy_setWorker {shard : Fin shardCount} {worker : WorkerState}
    (same : heldBy (state.setWorker shard worker) shard = heldBy state shard) (other : Fin shardCount) :
    heldBy (state.setWorker shard worker) other = heldBy state other := by
  by_cases here : other = shard
  · subst here
    exact same
  · simp only [heldBy, ThreadedShardedEngine.setWorker, Function.update_of_ne here]

/-- A worker has called the engine. -/
theorem outbound_applied (inv : Outbound state observed) {shard : Fin shardCount} {msg : CommandMsg}
    (holding : state.workers shard = .holding msg) {engine : ShardedMatchingEngine shardCount}
    (sound : ∀ shard, WellFormed (engine.engines shard)) (outcome : Outcome) :
    Outbound { state.setWorker shard (.finished (msg.result outcome)) with engine }
      (observed ++ [some (.applied shard msg outcome)]) := by
  refine ⟨sound, fun other => ?_, stopped_of_active inv (by simp [holding]) _⟩
  have before := inv.flow other
  simp only [resultsOf] at before ⊢
  rw [appliedBy_append, drainedFrom_append, List.map_append, before]
  by_cases here : shard = other
  · subst here
    simp [appliedBy, drainedFrom, heldBy, ThreadedShardedEngine.setWorker, holding]
  · simp [appliedBy, drainedFrom, heldBy, ThreadedShardedEngine.setWorker, here,
      Function.update_of_ne (Ne.symm here)]

/-- A worker has pushed its result. -/
theorem outbound_pushed (inv : Outbound state observed) {shard : Fin shardCount} {result : ResultMsg}
    (publishing : state.workers shard = .publishing result) {queue : SpscQueue ResultMsg}
    (pushed : (state.outbound shard).push result = some queue) :
    Outbound { state.setWorker shard .atLoop with
      outbound := Function.update state.outbound shard queue } (observed ++ [none]) := by
  have grown := SpscQueue.push_contents pushed
  refine ⟨inv.sound, fun other => ?_, stopped_of_active inv (by simp [publishing]) _⟩
  have before := inv.flow other
  simp only [resultsOf] at before ⊢
  rw [appliedBy_append, drainedFrom_append, List.map_append, before]
  by_cases here : shard = other
  · subst here
    simp [appliedBy, drainedFrom, heldBy, ThreadedShardedEngine.setWorker, publishing, grown]
  · simp [appliedBy, drainedFrom, heldBy, ThreadedShardedEngine.setWorker,
      Function.update_of_ne (Ne.symm here)]

/-- `drain` has taken a result. -/
theorem outbound_drained (inv : Outbound state observed) {shard : Fin shardCount} {result : ResultMsg}
    {queue : SpscQueue ResultMsg} (popped : (state.outbound shard).pop = some (result, queue)) :
    Outbound { state with outbound := Function.update state.outbound shard queue }
      (observed ++ [some (.drained shard result)]) := by
  have front := SpscQueue.pop_contents popped
  refine ⟨inv.sound, fun other => ?_, inv.stopped⟩
  have before := inv.flow other
  simp only [resultsOf] at before ⊢
  rw [appliedBy_append, drainedFrom_append, List.map_append, before]
  by_cases here : shard = other
  · subst here
    simp [appliedBy, drainedFrom, heldBy, front]
  · simp [appliedBy, drainedFrom, heldBy, here, Function.update_of_ne (Ne.symm here)]

variable [NeZero shardCount]

theorem outbound_worker (inv : Outbound state observed) (shard : Fin shardCount)
    (keeps : PublishKeeps state (.worker shard)) :
    ∃ next shown, state.workerStep shard = .ok (next, shown) ∧ Outbound next (observed ++ [shown]) := by
  have silent : ∀ other : Fin shardCount, resultsOf other [none] = [] ∧ drainedFrom other [none] = [] :=
    fun _ => ⟨rfl, rfl⟩
  unfold ThreadedShardedEngine.workerStep
  cases at_ : state.workers shard with
  | exited => exact ⟨_, _, rfl, outbound_quiet inv inv.sound rfl (fun _ => rfl) inv.stopped silent⟩
  | atLoop =>
    refine ⟨_, _, rfl, outbound_quiet inv inv.sound rfl (heldBy_setWorker ?_)
      (stopped_of_active inv (by simp [at_]) _) silent⟩
    by_cases up : state.running = true <;> simp [heldBy, ThreadedShardedEngine.setWorker, at_, up]
  | polling =>
    cases popped : (state.inbound shard).pop with
    | none =>
      refine ⟨_, _, rfl, outbound_quiet inv inv.sound rfl (heldBy_setWorker ?_)
        (stopped_of_active inv (by simp [at_]) _) silent⟩
      simp [heldBy, ThreadedShardedEngine.setWorker, at_]
    | some taken =>
      refine ⟨_, _, rfl, outbound_quiet inv inv.sound rfl (heldBy_setWorker ?_)
        (stopped_of_active inv (by simp [at_]) _) (fun _ => ⟨rfl, rfl⟩)⟩
      simp [heldBy, ThreadedShardedEngine.setWorker, at_]
  | holding msg =>
    obtain ⟨engine, outcome, ran, sound⟩ := call_sound inv.sound msg
    refine ⟨_, _, ?_, outbound_applied inv at_ sound outcome⟩
    simp only [ran, bind, Except.bind]
  | finished result =>
    simp only [PublishKeeps, at_] at keeps
    refine ⟨_, _, rfl, outbound_quiet inv inv.sound rfl (heldBy_setWorker ?_)
      (stopped_of_active inv (by simp [at_]) _) silent⟩
    simp [heldBy, ThreadedShardedEngine.setWorker, at_, keeps]
  | publishing result =>
    simp only [PublishKeeps, at_] at keeps
    cases pushed : (state.outbound shard).push result with
    | none =>
      simp only [pushed, Option.isNone_none, true_implies] at keeps ⊢
      refine ⟨_, _, rfl, outbound_quiet inv inv.sound rfl (heldBy_setWorker ?_)
        (stopped_of_active inv (by simp [at_]) _) silent⟩
      simp [heldBy, ThreadedShardedEngine.setWorker, at_, keeps]
    | some queue =>
      simp only [pushed]
      exact ⟨_, _, rfl, outbound_pushed inv at_ pushed⟩

/-- One step, of any thread. -/
theorem outbound_kept (inv : Outbound state observed) (action : Action shardCount)
    (keeps : PublishKeeps state action) :
    ∃ next shown, step state action = .ok (next, shown) ∧ Outbound next (observed ++ [shown]) := by
  have silent : ∀ other : Fin shardCount, resultsOf other [none] = [] ∧ drainedFrom other [none] = [] :=
    fun _ => ⟨rfl, rfl⟩
  cases action with
  | submit command number =>
    refine ⟨(state.submit command number).1, (state.submit command number).2, rfl, ?_⟩
    unfold ThreadedShardedEngine.submit
    cases state.producer <;>
      exact outbound_quiet inv inv.sound rfl (fun _ => rfl) inv.stopped fun _ => ⟨rfl, rfl⟩
  | push =>
    refine ⟨state.push, none, rfl, ?_⟩
    unfold ThreadedShardedEngine.push
    split
    · exact outbound_quiet inv inv.sound rfl (fun _ => rfl) inv.stopped silent
    · split <;> exact outbound_quiet inv inv.sound rfl (fun _ => rfl) inv.stopped silent
  | worker shard => exact outbound_worker inv shard keeps
  | drain => exact ⟨_, _, rfl, outbound_quiet inv inv.sound rfl (fun _ => rfl) inv.stopped silent⟩
  | collect =>
    refine ⟨state.collect.1, state.collect.2, rfl, ?_⟩
    rcases collect_cases state with ⟨place, moved⟩ | ⟨shard, result, queue, popped, taken⟩
    · rw [moved]
      exact outbound_quiet inv inv.sound rfl (fun _ => rfl) inv.stopped silent
    · rw [taken]
      exact outbound_drained inv popped
  | start =>
    refine ⟨state.start, none, rfl, ?_⟩
    unfold ThreadedShardedEngine.start
    split
    · exact outbound_quiet inv inv.sound rfl (fun _ => rfl) inv.stopped silent
    · rename_i down
      simp only [Bool.or_eq_true, not_or, Bool.not_eq_true] at down
      -- The workers of the last start have left, and took no result with them.
      have left := inv.stopped down.2 down.1
      exact outbound_quiet inv inv.sound rfl (fun shard => by simp [heldBy, left]) (by simp) silent
  | stop =>
    refine ⟨state.stop, none, rfl, ?_⟩
    unfold ThreadedShardedEngine.stop
    split
    · exact outbound_quiet inv inv.sound rfl (fun _ => rfl) (by simp) silent
    · exact outbound_quiet inv inv.sound rfl (fun _ => rfl) inv.stopped silent
  | join =>
    refine ⟨state.join, none, rfl, ?_⟩
    unfold ThreadedShardedEngine.join
    split
    · rename_i left
      exact outbound_quiet inv inv.sound rfl (fun _ => rfl) (fun _ _ => left.2) silent
    · exact outbound_quiet inv inv.sound rfl (fun _ => rfl) inv.stopped silent

/-- In every interleaving in which workers publish with the flag up and no push
empties a result, each applied command has one result, as the engine returned
it, that is drained, queued or held, in the order of the calls; and once `stop`
has returned and the queues are drained, all results have been. -/
theorem results_come_out {limits : RiskLimits} {files : Fin shardCount → Files} {capacity : UInt64}
    (created : ThreadedShardedEngine.create limits files capacity = some state)
    (actions : List (Action shardCount)) (keeps : Meets step PublishKeeps state actions) :
    ∃ final observed, run step state actions = .ok (final, observed) ∧
      (∀ shard, resultsOf shard observed =
        drainedFrom shard observed ++ ((final.outbound shard).contents ++ heldBy final shard)) ∧
      (final.running = false → final.stopping = false → (∀ shard, (final.outbound shard).contents = []) →
        ∀ shard, drainedFrom shard observed = resultsOf shard observed) := by
  obtain ⟨sound, -, outbound, workers, -⟩ := create_shape created
  have start : Outbound state [] :=
    ⟨sound, fun shard => by simp [resultsOf, appliedBy, drainedFrom, outbound, heldBy, workers],
      fun _ _ => workers⟩
  obtain ⟨final, observed, ran, inv⟩ := Runs.run_history PublishKeeps Outbound
    (fun state observed action inv keeps => outbound_kept inv action keeps) [] start keeps
  rw [List.nil_append] at inv
  refine ⟨final, observed, ran, inv.flow, fun down returned empty shard => ?_⟩
  have flow := inv.flow shard
  have left := inv.stopped down returned shard
  rw [flow]
  simp [empty, heldBy, left]

/-- One bid, published before the stop and drained after it. -/
def orderly : List (Action 2) :=
  [.start, .submit (bidBy "A" 1) none, .push, worker0, worker0, worker0, worker0, worker0, .stop,
    worker0, worker1, .join, .drain, .collect, .collect, .collect, .collect]

theorem orderly_results_come_out :
    ∃ final observed, run step narrow orderly = .ok (final, observed) ∧
      (∀ shard, resultsOf shard observed =
        drainedFrom shard observed ++ ((final.outbound shard).contents ++ heldBy final shard)) ∧
      (final.running = false → final.stopping = false → (∀ shard, (final.outbound shard).contents = []) →
        ∀ shard, drainedFrom shard observed = resultsOf shard observed) :=
  results_come_out narrow_created orderly (by decide +kernel)

/-- The stop comes between the engine call and the publication. -/
def hasty : List (Action 2) :=
  [.start, .submit (bidBy "A" 1) none, .push, worker0, worker0, worker0, .stop, worker0, worker0,
    worker1, .join, .drain, .collect, .collect, .collect]

/-- The second result meets a full queue once, and is pushed when there is room. -/
def crowded : List (Action 2) :=
  [.start, .submit (bidBy "A" 1) none, .push, worker0, worker0, worker0, worker0, worker0,
    .submit (bidBy "B" 2) none, .push, worker0, worker0, worker0, worker0, worker0,
    .drain, .collect, worker0, worker0, .collect]

/-- A stop at the wrong moment drops the result of an applied command, and one
failed push empties a result before it is drained. -/
theorem results_are_dropped_or_emptied :
    (∃ final observed, run step narrow hasty = .ok (final, observed) ∧ final.running = false ∧
      final.stopping = false ∧ (∀ shard, (final.outbound shard).contents = []) ∧
      (appliedBy 0 observed).length = 1 ∧ drainedFrom 0 observed = []) ∧
    ∃ final observed, run step narrow crowded = .ok (final, observed) ∧
      resultsOf 0 observed ≠
        drainedFrom 0 observed ++ ((final.outbound 0).contents ++ heldBy final 0) := by
  constructor
  · have known : (run step narrow hasty).map (fun result => (result.1.running, result.1.stopping,
        decide (∀ shard, (result.1.outbound shard).contents = []), (appliedBy 0 result.2).length,
        (drainedFrom 0 result.2).length)) = .ok (false, false, true, 1, 0) := by decide +kernel
    cases ran : run step narrow hasty with
    | error fault =>
      rw [ran] at known
      cases known
    | ok result =>
      rw [ran] at known
      simp only [Except.map, Except.ok.injEq, Prod.mk.injEq, decide_eq_true_eq,
        List.length_eq_zero_iff] at known
      exact ⟨result.1, result.2, rfl, known⟩
  · have known : (run step narrow crowded).map (fun result => decide (resultsOf 0 result.2 =
        drainedFrom 0 result.2 ++ ((result.1.outbound 0).contents ++ heldBy result.1 0))) = .ok false := by
      decide +kernel
    cases ran : run step narrow crowded with
    | error fault =>
      rw [ran] at known
      cases known
    | ok result =>
      rw [ran] at known
      exact ⟨result.1, result.2, rfl, of_decide_eq_false (Except.ok.inj known)⟩

end Exchange.PipelineOutbound
