import Exchange.CrashRecovery
import Exchange.PipelineLinear

/-! A crash of the threaded engine. The workers write to their logs at their own
pace, so the shards are left at different points, some of them in the middle of
a call. The calls of all workers are nevertheless one run of the sharded engine,
and each shard comes back as it was at some moment of this run. -/
namespace Exchange.PipelineCrash
open CrashRecovery EngineInvariant PipelineInbound PipelineLinear ShardReplay
open ShardedMatchingEngine (Call rebuild)
open ThreadedShardedEngine (step)

variable {shardCount : Nat} [NeZero shardCount] {start state next : ThreadedShardedEngine shardCount}
  {observed : List (Option (Observation shardCount))} {shown : Option (Observation shardCount)}

/-- The engine calls of all workers, in the order in which they were made. -/
def called (observed : List (Option (Observation shardCount))) : List Call :=
  (applied observed).map fun issued => issued.2.1.call

/-- The message a worker calls the engine for brings in no live id, and its log
line can be told from its own fronts. -/
def CallsFresh (state : ThreadedShardedEngine shardCount) : Action shardCount → Prop
  | .worker shard => ∀ msg ∈ heldFor state shard,
    FreshCall state.engine msg.call ∧ LineApart state.engine msg.call
  | _ => True

instance (state : ThreadedShardedEngine shardCount) : DecidablePred (CallsFresh state)
  | .worker shard => inferInstanceAs (Decidable (∀ msg ∈ heldFor state shard, _))
  | .submit _ _ | .push | .drain | .collect | .start | .stop | .join => isTrue trivial

/-- A step calls the engine for the message its worker holds, or leaves it alone. -/
theorem step_calls (sound : Sound state) (action : Action shardCount) :
    ∃ next shown, step state action = .ok (next, shown) ∧
      (next.engine = state.engine ∧ applied [shown] = [] ∨
        ∃ shard msg outcome, action = .worker shard ∧ heldFor state shard = [msg] ∧
          state.engine.apply msg.call = .ok (next.engine, outcome) ∧ applied [shown] = [(shard, msg, outcome)]) := by
  cases action with
  | worker shard =>
    simp only [step, ThreadedShardedEngine.workerStep]
    cases at_ : state.workers shard with
    | exited => exact ⟨_, _, rfl, .inl ⟨rfl, rfl⟩⟩
    | atLoop => exact ⟨_, _, rfl, .inl ⟨rfl, rfl⟩⟩
    | finished result => exact ⟨_, _, rfl, .inl ⟨rfl, rfl⟩⟩
    | polling =>
      dsimp only
      cases (state.inbound shard).pop <;> exact ⟨_, _, rfl, .inl ⟨rfl, rfl⟩⟩
    | publishing result =>
      dsimp only
      cases (state.outbound shard).push result <;> exact ⟨_, _, rfl, .inl ⟨rfl, rfl⟩⟩
    | holding msg =>
      obtain ⟨engine, outcome, ran, -⟩ := call_sound sound msg
      simp only [ran, bind, Except.bind]
      exact ⟨_, _, rfl, .inr ⟨shard, msg, outcome, rfl, by simp only [heldFor, at_], ran, rfl⟩⟩
  | submit command number =>
    refine ⟨(state.submit command number).1, (state.submit command number).2, rfl, .inl ?_⟩
    unfold ThreadedShardedEngine.submit
    cases state.producer <;> exact ⟨rfl, rfl⟩
  | push =>
    refine ⟨state.push, none, rfl, .inl ⟨?_, rfl⟩⟩
    unfold ThreadedShardedEngine.push
    split
    · rfl
    · split <;> rfl
  | collect =>
    refine ⟨state.collect.1, state.collect.2, rfl, .inl ?_⟩
    rcases collect_cases state with ⟨place, moved⟩ | ⟨own, result, queue, -, taken⟩
    · rw [moved]
      exact ⟨rfl, rfl⟩
    · rw [taken]
      exact ⟨rfl, rfl⟩
  | drain => exact ⟨_, _, rfl, .inl ⟨rfl, rfl⟩⟩
  | start =>
    refine ⟨state.start, none, rfl, .inl ⟨?_, rfl⟩⟩
    unfold ThreadedShardedEngine.start
    split <;> rfl
  | stop =>
    refine ⟨state.stop, none, rfl, .inl ⟨?_, rfl⟩⟩
    unfold ThreadedShardedEngine.stop
    split <;> rfl
  | join =>
    refine ⟨state.join, none, rfl, .inl ⟨?_, rfl⟩⟩
    unfold ThreadedShardedEngine.join
    split <;> rfl

/-- The calls so far are a run of the sharded engine, in which no id is reused. -/
structure OneRun (start state : ThreadedShardedEngine shardCount) (observed : List (Option (Observation shardCount))) :
    Prop where
  sound : Sound state
  ran : ∃ outcomes, run ShardedMatchingEngine.apply start.engine (called observed) = .ok (state.engine, outcomes)
  fresh : Meets ShardedMatchingEngine.apply (fun state call => FreshCall state call ∧ LineApart state call)
    start.engine (called observed)

theorem oneRun_step (inv : OneRun start state observed) (action : Action shardCount) (fresh : CallsFresh state action) :
    ∃ next shown, step state action = .ok (next, shown) ∧ OneRun start next (observed ++ [shown]) := by
  obtain ⟨next, shown, stepped, ⟨same, silent⟩ | ⟨shard, msg, outcome, rfl, held, taken, shows⟩⟩ :=
    step_calls inv.sound action
  · have still : called (observed ++ [shown]) = called observed := by
      rw [called, applied_append, silent, List.append_nil, called]
    refine ⟨next, shown, stepped, ?_, ?_, ?_⟩
    · unfold Sound
      rw [same]
      exact inv.sound
    · rw [still, same]
      exact inv.ran
    · rw [still]
      exact inv.fresh
  · have more : called (observed ++ [shown]) = called observed ++ [msg.call] := by
      rw [called, applied_append, shows, List.map_append, called]
      rfl
    obtain ⟨outcomes, ran⟩ := inv.ran
    obtain ⟨engine, outcome', taken', sound⟩ := call_sound inv.sound msg
    rw [taken] at taken'
    cases taken'
    refine ⟨next, shown, stepped, sound, ⟨outcomes ++ [outcome], ?_⟩, ?_⟩
    · rw [more]
      exact Runs.run_concat ran taken
    · rw [more]
      refine (Runs.meets_append ran).mpr ⟨inv.fresh, fresh msg (by simp [held]), ?_⟩
      rw [taken]
      trivial

/-- The call a worker is in, if the crash finds its line staged. -/
def begunBy (state : ThreadedShardedEngine shardCount) (staged : Fin shardCount → Bool) (shard : Fin shardCount) :
    Option Call :=
  if staged shard then (heldFor state shard).head?.map CommandMsg.call else none

/-- The files of all shards after a crash. -/
def leftByCrash (state : ThreadedShardedEngine shardCount) (staged : Fin shardCount → Bool)
    (reached : Fin shardCount → Nat) (shard : Fin shardCount) : Files :=
  leftBehind state.engine (begunBy state staged shard) reached shard

end Exchange.PipelineCrash
