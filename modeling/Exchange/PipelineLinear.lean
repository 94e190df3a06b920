import Exchange.PipelineOutbound
import Exchange.ShardComponents

/-! The pipeline against one thread. Take the submitted commands in the order of
their submission and give them to the sharded engine one after the other: what
the workers made of them concurrently, and what `drain` returned, is what this
sequential run makes of them, as far as each shard has got. -/
namespace Exchange.PipelineLinear
open EngineInvariant ShardedSteps PipelineInbound PipelineOutbound ShardComponents
open ShardedMatchingEngine (shardOf)
open ThreadedShardedEngine (step)

variable {shardCount : Nat}

/-! ## Histories -/

/-- Every submitted message, in the order of the submissions. -/
def submitted (observed : List (Option (Observation shardCount))) : List CommandMsg :=
  observed.filterMap fun
    | some (.submitted msg) => some msg
    | _ => none

/-- Every engine call of every worker, in the order of the calls. -/
def applied (observed : List (Option (Observation shardCount))) :
    List (Fin shardCount × CommandMsg × Outcome) :=
  observed.filterMap fun
    | some (.applied shard msg outcome) => some (shard, msg, outcome)
    | _ => none

/-- The message a worker is about to call the engine for. -/
def heldFor (state : ThreadedShardedEngine shardCount) (shard : Fin shardCount) : List CommandMsg :=
  match state.workers shard with
  | .holding msg => [msg]
  | _ => []

section
variable (observed more : List (Option (Observation shardCount)))

theorem submitted_append : submitted (observed ++ more) = submitted observed ++ submitted more :=
  List.filterMap_append

theorem applied_append : applied (observed ++ more) = applied observed ++ applied more :=
  List.filterMap_append

theorem appliedBy_eq (shard : Fin shardCount) : appliedBy shard observed =
    ((applied observed).filter fun issued => decide (issued.1 = shard)).map Prod.snd := by
  induction observed with
  | nil => rfl
  | cons shown observed ih =>
    rw [appliedBy, applied] at ih ⊢
    rcases shown with _ | (msg | ⟨other, msg⟩ | ⟨other, msg, outcome⟩ | ⟨other, result⟩)
    case some.applied =>
      by_cases here : other = shard <;> simp [here, ih]
    all_goals simpa using ih

theorem submittedTo_eq [NeZero shardCount] (shard : Fin shardCount) : submittedTo shard observed =
    (submitted observed).filter fun msg => decide (shardOf msg.command.symbol = shard) := by
  induction observed with
  | nil => rfl
  | cons shown observed ih =>
    rw [submittedTo, submitted] at ih ⊢
    rcases shown with _ | (msg | ⟨other, msg⟩ | ⟨other, msg, outcome⟩ | ⟨other, result⟩)
    case some.submitted =>
      by_cases here : shardOf msg.command.symbol = shard <;> simp [here, ih]
    all_goals simpa using ih

end

theorem callSymbol_call (msg : CommandMsg) : callSymbol msg.call = some msg.command.symbol := by
  obtain ⟨command, number, correlation⟩ := msg
  cases command <;> rfl

theorem concerns_call [NeZero shardCount] (shard : Fin shardCount) (msg : CommandMsg) :
    concerns shard msg.call = decide (shardOf msg.command.symbol = shard) := by
  rw [concerns, callSymbol_call, Option.all_some]

variable [NeZero shardCount] {start state next : ThreadedShardedEngine shardCount}
  {observed : List (Option (Observation shardCount))} {shown : Option (Observation shardCount)}

/-! ## The invariant -/

/-- The workers' calls so far are a run of the sharded engine; a worker has
called the engine for what it took, but for the message it holds; and the
correlation ids count the submissions. -/
structure Serial (start state : ThreadedShardedEngine shardCount)
    (observed : List (Option (Observation shardCount))) : Prop where
  inbound : Inbound state observed
  stopped : state.running = false → state.stopping = false → ∀ shard, state.workers shard = .exited
  flow : ∀ shard, takenBy shard observed = (appliedBy shard observed).map Prod.fst ++ heldFor state shard
  ran : run ShardedMatchingEngine.apply start.engine ((applied observed).map fun issued => issued.2.1.call) =
    .ok (state.engine, (applied observed).map fun issued => issued.2.2)
  counter : state.nextCorrelation = UInt64.ofNat (submitted observed).length
  numbered : (submitted observed).map CommandMsg.correlation =
    (List.range (submitted observed).length).map fun place => UInt64.ofNat (place + 1)

/-- A step in which no worker takes a message or calls the engine, and nothing
is submitted. -/
theorem serial_quiet (inv : Serial start state observed) (inbound : Inbound next (observed ++ [shown]))
    (engine : next.engine = state.engine) (counter : next.nextCorrelation = state.nextCorrelation)
    (held : ∀ shard, heldFor next shard = heldFor state shard)
    (stopped : next.running = false → next.stopping = false → ∀ shard, next.workers shard = .exited)
    (silent : submitted [shown] = [] ∧ applied [shown] = [] ∧ ∀ shard, takenBy shard [shown] = []) :
    Serial start next (observed ++ [shown]) := by
  obtain ⟨noSubmit, noCall, noTake⟩ := silent
  refine ⟨inbound, stopped, fun shard => ?_, ?_, ?_, ?_⟩
  · have nothing : appliedBy shard [shown] = [] := by
      rw [appliedBy_eq, noCall]
      rfl
    rw [takenBy_append, appliedBy_append, noTake, nothing, List.append_nil, List.append_nil, held]
    exact inv.flow shard
  · rw [applied_append, noCall, List.append_nil, engine]
    exact inv.ran
  · rw [submitted_append, noSubmit, List.append_nil, counter]
    exact inv.counter
  · rw [submitted_append, noSubmit, List.append_nil]
    exact inv.numbered

omit [NeZero shardCount] in
theorem heldFor_setWorker {shard : Fin shardCount} {worker : WorkerState}
    (same : heldFor (state.setWorker shard worker) shard = heldFor state shard) (other : Fin shardCount) :
    heldFor (state.setWorker shard worker) other = heldFor state other := by
  by_cases here : other = shard
  · subst here
    exact same
  · simp only [heldFor, ThreadedShardedEngine.setWorker, Function.update_of_ne here]

/-- While a worker is in its loop, `stop` has not returned. -/
theorem stopped_of_inside (inv : Serial start state observed) {shard : Fin shardCount}
    (inside : state.workers shard ≠ .exited) (worker : WorkerState) :
    (state.setWorker shard worker).running = false → (state.setWorker shard worker).stopping = false →
      ∀ other, (state.setWorker shard worker).workers other = .exited := by
  intro down returned
  exact absurd (inv.stopped down returned shard) inside

theorem serial_submit (inv : Serial start state observed) (command : Command) (number : Option Int64) :
    Serial start (state.submit command number).1 (observed ++ [(state.submit command number).2]) := by
  have inbound := inbound_submit inv.inbound command number
  unfold ThreadedShardedEngine.submit at inbound ⊢
  cases idle : state.producer with
  | some pending =>
    rw [idle] at inbound
    exact serial_quiet inv inbound rfl rfl (fun _ => rfl) inv.stopped ⟨rfl, rfl, fun _ => rfl⟩
  | none =>
    rw [idle] at inbound
    refine ⟨inbound, inv.stopped, fun shard => ?_, ?_, ?_, ?_⟩
    · rw [takenBy_append, appliedBy_append]
      simpa [takenBy, appliedBy, heldFor] using inv.flow shard
    · rw [applied_append]
      simpa [applied] using inv.ran
    · rw [submitted_append]
      simp [submitted, inv.counter]
    · have numbered := inv.numbered
      rw [submitted_append, List.map_append, numbered]
      simp [submitted, List.range_succ, inv.counter]

/-- A worker takes the oldest message of its queue. -/
theorem serial_took (inv : Serial start state observed) {shard : Fin shardCount} {msg : CommandMsg}
    {queue : SpscQueue CommandMsg} (polling : state.workers shard = .polling)
    (popped : (state.inbound shard).pop = some (msg, queue)) :
    Serial start { state.setWorker shard (.holding msg) with
      inbound := Function.update state.inbound shard queue } (observed ++ [some (.took shard msg)]) := by
  refine ⟨inbound_took inv.inbound popped, stopped_of_inside inv (by simp [polling]) _, fun other => ?_, ?_, ?_, ?_⟩
  · have before := inv.flow other
    rw [takenBy_append, appliedBy_append, before]
    by_cases here : shard = other
    · subst here
      simp [takenBy, appliedBy, heldFor, ThreadedShardedEngine.setWorker, polling]
    · simp [takenBy, appliedBy, heldFor, ThreadedShardedEngine.setWorker, here, Function.update_of_ne (Ne.symm here)]
  · have silent : applied [some (.took shard msg)] = [] := rfl
    rw [applied_append, silent, List.append_nil]
    exact inv.ran
  · have silent : submitted [some (.took shard msg)] = [] := rfl
    rw [submitted_append, silent, List.append_nil]
    exact inv.counter
  · rw [submitted_append]
    simpa [submitted] using inv.numbered

/-- A worker calls the engine for the message it holds. -/
theorem serial_applied (inv : Serial start state observed) {shard : Fin shardCount} {msg : CommandMsg}
    (holding : state.workers shard = .holding msg) {engine : ShardedMatchingEngine shardCount} {outcome : Outcome}
    (called : state.engine.apply msg.call = .ok (engine, outcome)) :
    Serial start { state.setWorker shard (.finished (msg.result outcome)) with engine }
      (observed ++ [some (.applied shard msg outcome)]) := by
  obtain ⟨engine', outcome', called', sound⟩ := call_sound inv.inbound.sound msg
  rw [called] at called'
  cases called'
  refine ⟨inbound_applied inv.inbound holding sound outcome _, stopped_of_inside inv (by simp [holding]) _,
    fun other => ?_, ?_, ?_, ?_⟩
  · have before := inv.flow other
    rw [takenBy_append, appliedBy_append, before]
    by_cases here : shard = other
    · subst here
      simp [takenBy, appliedBy, heldFor, ThreadedShardedEngine.setWorker, holding]
    · simp [takenBy, appliedBy, heldFor, ThreadedShardedEngine.setWorker, here, Function.update_of_ne (Ne.symm here)]
  · rw [applied_append, List.map_append, List.map_append]
    exact Runs.run_concat inv.ran called
  · have silent : submitted [some (.applied shard msg outcome)] = [] := rfl
    rw [submitted_append, silent, List.append_nil]
    exact inv.counter
  · rw [submitted_append]
    simpa [submitted] using inv.numbered

theorem serial_worker (inv : Serial start state observed) (shard : Fin shardCount) :
    ∃ next shown, state.workerStep shard = .ok (next, shown) ∧ Serial start next (observed ++ [shown]) := by
  obtain ⟨next, shown, stepped, inbound⟩ := inbound_worker inv.inbound shard
  refine ⟨next, shown, stepped, ?_⟩
  unfold ThreadedShardedEngine.workerStep at stepped
  have silent : submitted [(none : Option (Observation shardCount))] = [] ∧
      applied [(none : Option (Observation shardCount))] = [] ∧
      ∀ other : Fin shardCount, takenBy other [none] = [] := ⟨rfl, rfl, fun _ => rfl⟩
  cases at_ : state.workers shard with
  | exited =>
    simp only [at_] at stepped
    cases stepped
    exact serial_quiet inv inbound rfl rfl (fun _ => rfl) inv.stopped silent
  | atLoop =>
    simp only [at_] at stepped
    cases stepped
    refine serial_quiet inv inbound rfl rfl (heldFor_setWorker ?_) (stopped_of_inside inv (by simp [at_]) _) silent
    by_cases up : state.running = true <;> simp [heldFor, ThreadedShardedEngine.setWorker, at_, up]
  | polling =>
    cases popped : (state.inbound shard).pop with
    | none =>
      simp only [at_, popped] at stepped
      cases stepped
      refine serial_quiet inv inbound rfl rfl (heldFor_setWorker ?_) (stopped_of_inside inv (by simp [at_]) _) silent
      simp [heldFor, ThreadedShardedEngine.setWorker, at_]
    | some taken =>
      simp only [at_, popped] at stepped
      cases stepped
      exact serial_took inv at_ popped
  | holding msg =>
    cases called : state.engine.apply msg.call with
    | error fault => simp [at_, called, bind, Except.bind] at stepped
    | ok result =>
      simp only [at_, called, bind, Except.bind] at stepped
      cases stepped
      exact serial_applied inv at_ called
  | finished result =>
    simp only [at_] at stepped
    cases stepped
    refine serial_quiet inv inbound rfl rfl (heldFor_setWorker ?_) (stopped_of_inside inv (by simp [at_]) _) silent
    by_cases up : state.running = true <;> simp [heldFor, ThreadedShardedEngine.setWorker, at_, up]
  | publishing result =>
    cases pushed : (state.outbound shard).push result with
    | none =>
      simp only [at_, pushed] at stepped
      cases stepped
      refine serial_quiet inv inbound rfl rfl (heldFor_setWorker ?_) (stopped_of_inside inv (by simp [at_]) _) silent
      simp [heldFor, ThreadedShardedEngine.setWorker, at_]
    | some queue =>
      simp only [at_, pushed] at stepped
      cases stepped
      have held : ∀ other, heldFor (state.setWorker shard .atLoop) other = heldFor state other :=
        heldFor_setWorker (by simp [heldFor, ThreadedShardedEngine.setWorker, at_])
      exact serial_quiet inv inbound rfl rfl held (stopped_of_inside inv (by simp [at_]) _) silent

/-- One step, of any thread. -/
theorem serial_kept (inv : Serial start state observed) (action : Action shardCount)
    (keeps : PushKeeps state action) :
    ∃ next shown, step state action = .ok (next, shown) ∧ Serial start next (observed ++ [shown]) := by
  have silent : submitted [(none : Option (Observation shardCount))] = [] ∧
      applied [(none : Option (Observation shardCount))] = [] ∧
      ∀ other : Fin shardCount, takenBy other [none] = [] := ⟨rfl, rfl, fun _ => rfl⟩
  obtain ⟨next, shown, stepped, inbound⟩ := inbound_kept inv.inbound action keeps
  cases action with
  | submit command number => exact ⟨_, _, rfl, serial_submit inv command number⟩
  | worker shard => exact serial_worker inv shard
  | push =>
    refine ⟨next, shown, stepped, ?_⟩
    cases stepped
    have calls : state.push.engine = state.engine ∧ state.push.nextCorrelation = state.nextCorrelation ∧
        state.push.workers = state.workers ∧ state.push.running = state.running ∧
        state.push.stopping = state.stopping := by
      unfold ThreadedShardedEngine.push
      split
      · exact ⟨rfl, rfl, rfl, rfl, rfl⟩
      · split <;> exact ⟨rfl, rfl, rfl, rfl, rfl⟩
    obtain ⟨engine, counter, workers, running, stopping⟩ := calls
    refine serial_quiet inv inbound engine counter (fun shard => by rw [heldFor, heldFor, workers]) ?_ silent
    rw [running, stopping, workers]
    exact inv.stopped
  | drain =>
    exact ⟨_, _, rfl, by
      cases stepped
      exact serial_quiet inv inbound rfl rfl (fun _ => rfl) inv.stopped silent⟩
  | collect =>
    refine ⟨next, shown, stepped, ?_⟩
    have same : state.collect = (next, shown) := Except.ok.inj stepped
    rcases collect_cases state with ⟨place, moved⟩ | ⟨shard, result, queue, -, taken⟩
    · rw [moved] at same
      cases same
      exact serial_quiet inv inbound rfl rfl (fun _ => rfl) inv.stopped silent
    · rw [taken] at same
      cases same
      exact serial_quiet inv inbound rfl rfl (fun _ => rfl) inv.stopped ⟨rfl, rfl, fun _ => rfl⟩
  | start =>
    refine ⟨next, shown, stepped, ?_⟩
    cases stepped
    unfold ThreadedShardedEngine.start at inbound ⊢
    split
    · rename_i up
      rw [if_pos up] at inbound
      exact serial_quiet inv inbound rfl rfl (fun _ => rfl) inv.stopped silent
    · rename_i down
      rw [if_neg down] at inbound
      simp only [Bool.or_eq_true, not_or, Bool.not_eq_true] at down
      -- The workers of the last start have left, and took no command with them.
      have left := inv.stopped down.2 down.1
      exact serial_quiet inv inbound rfl rfl (fun shard => by simp [heldFor, left]) (by simp) silent
  | stop =>
    refine ⟨next, shown, stepped, ?_⟩
    cases stepped
    unfold ThreadedShardedEngine.stop at inbound ⊢
    split
    · rename_i up
      rw [if_pos up] at inbound
      exact serial_quiet inv inbound rfl rfl (fun _ => rfl) (by simp) silent
    · rename_i down
      rw [if_neg down] at inbound
      exact serial_quiet inv inbound rfl rfl (fun _ => rfl) inv.stopped silent
  | join =>
    refine ⟨next, shown, stepped, ?_⟩
    cases stepped
    unfold ThreadedShardedEngine.join at inbound ⊢
    split
    · rename_i left
      rw [if_pos left] at inbound
      exact serial_quiet inv inbound rfl rfl (fun _ => rfl) (fun _ _ => left.2) silent
    · rename_i inside
      rw [if_neg inside] at inbound
      exact serial_quiet inv inbound rfl rfl (fun _ => rfl) inv.stopped silent

/-! ## The sequential run -/

/-- The submitted commands of a shard, each with what a run over all submitted
commands answered to it. -/
def answered (shard : Fin shardCount) (messages : List CommandMsg) (outcomes : List Outcome) :
    List (CommandMsg × Outcome) :=
  (messages.zip outcomes).filter fun pair => decide (shardOf pair.1.command.symbol = shard)

omit [NeZero shardCount] in
theorem created_engine {limits : RiskLimits} {files : Fin shardCount → Files} {capacity : UInt64}
    (created : ThreadedShardedEngine.create limits files capacity = some state) :
    state.engine = .create limits files ∧ state.nextCorrelation = 0 := by
  simp only [ThreadedShardedEngine.create, bind, Option.bind_eq_some_iff] at created
  obtain ⟨inbound, -, outbound, -, same⟩ := created
  cases same
  exact ⟨rfl, rfl⟩

theorem answered_messages (shard : Fin shardCount) {messages : List CommandMsg} {outcomes : List Outcome}
    (all : outcomes.length = messages.length) : (answered shard messages outcomes).map Prod.fst =
      messages.filter fun msg => decide (shardOf msg.command.symbol = shard) := by
  have firsts : (messages.zip outcomes).map Prod.fst = messages := List.map_fst_zip (by omega)
  conv_rhs => rw [← firsts, List.filter_map]
  rfl

theorem answered_outcomes (shard : Fin shardCount) (messages : List CommandMsg) (outcomes : List Outcome) :
    (answered shard messages outcomes).map Prod.snd =
      answersTo (concerns shard) (messages.map CommandMsg.call) outcomes := by
  rw [answersTo, List.zip_map_left, List.filter_map, List.map_map, answered]
  simp only [Function.comp_def, Prod.map, concerns_call, id]

/-- The calls of a worker are the calls that concern its shard. -/
theorem calls_of_worker (inv : Serial start state observed) (shard : Fin shardCount) :
    ((applied observed).filter fun issued => decide (issued.1 = shard)) =
      (applied observed).filter fun issued => concerns shard issued.2.1.call := by
  refine List.filter_congr fun issued member => ?_
  rw [concerns_call]
  have own : (issued.2.1, issued.2.2) ∈ appliedBy issued.1 observed := by
    rw [appliedBy_eq]
    exact List.mem_map.mpr ⟨issued, by simpa using member, rfl⟩
  have taken := inv.inbound.called issued.1 _ own
  have submitted_ : issued.2.1 ∈ submittedTo issued.1 observed := by
    rw [inv.inbound.flow]
    exact List.mem_append_left _ taken
  rw [submittedTo_eq, List.mem_filter, decide_eq_true_eq] at submitted_
  rw [submitted_.2]

/-- A worker's own calls, as a run of its shard alone. -/
theorem worker_run (inv : Serial start state observed) (shard : Fin shardCount) :
    run ShardedMatchingEngine.apply (alone start.engine shard)
      ((appliedBy shard observed).map fun issued => issued.1.call) =
        .ok (alone state.engine shard, (appliedBy shard observed).map Prod.snd) := by
  have part := Runs.run_part shards_decompose shard inv.ran
  have calls : ((applied observed).map fun issued => issued.2.1.call).filter (concerns shard) =
      (appliedBy shard observed).map fun issued => issued.1.call := by
    rw [List.filter_map, appliedBy_eq, calls_of_worker inv, List.map_map]
    rfl
  have outcomes : answersTo (concerns shard) ((applied observed).map fun issued => issued.2.1.call)
      ((applied observed).map fun issued => issued.2.2) = (appliedBy shard observed).map Prod.snd := by
    rw [appliedBy_eq, calls_of_worker inv, answersTo, List.zip_map', List.filter_map, List.map_map, List.map_map]
    rfl
  rw [calls, outcomes] at part
  exact part

/-- A worker has got as far as the commands it was sent. -/
def CaughtUp (state : ThreadedShardedEngine shardCount) (shard : Fin shardCount) : Prop :=
  (state.inbound shard).contents = [] ∧ waitingFor state shard = [] ∧ heldFor state shard = []

/-- What a worker did is the front of what the sequential run does for its
shard, and all of it once the worker has caught up. -/
theorem worker_behind (inv : Serial start state observed) {sequential : ShardedMatchingEngine shardCount}
    {outcomes : List Outcome}
    (ran : run ShardedMatchingEngine.apply start.engine ((submitted observed).map CommandMsg.call) =
      .ok (sequential, outcomes)) (shard : Fin shardCount) :
    appliedBy shard observed <+: answered shard (submitted observed) outcomes ∧
      (CaughtUp state shard → appliedBy shard observed = answered shard (submitted observed) outcomes ∧
        alone state.engine shard = alone sequential shard) := by
  have all : outcomes.length = (submitted observed).length := by
    rw [Runs.run_length ran, List.length_map]
  have part := Runs.run_part shards_decompose shard ran
  have calls : ((submitted observed).map CommandMsg.call).filter (concerns shard) =
      (submittedTo shard observed).map CommandMsg.call := by
    rw [List.filter_map, submittedTo_eq]
    simp only [Function.comp_def, concerns_call]
  rw [calls, inv.inbound.flow, inv.flow, ← answered_outcomes, List.append_assoc, List.map_append] at part
  obtain ⟨mid, before, after, front, back, whole⟩ := Runs.run_append_inv part
  have own := worker_run inv shard
  rw [List.map_map] at front
  have same : run ShardedMatchingEngine.apply (alone start.engine shard)
      ((appliedBy shard observed).map fun issued => issued.1.call) = .ok (mid, before) := front
  rw [own] at same
  obtain ⟨rfl, rfl⟩ := Prod.mk.inj (Except.ok.inj same)
  have ahead : appliedBy shard observed <+: answered shard (submitted observed) outcomes := by
    refine prefix_of_components ?_ ⟨after, whole.symm⟩
    rw [answered_messages shard all, ← submittedTo_eq, inv.inbound.flow, inv.flow, List.append_assoc]
    exact List.prefix_append _ _
  refine ⟨ahead, fun caught => ?_⟩
  obtain ⟨queue, waiting, held⟩ := caught
  rw [queue, waiting, held] at back
  obtain ⟨last, rfl⟩ := Prod.mk.inj (Except.ok.inj back)
  refine ⟨ahead.eq_of_length ?_, last⟩
  rw [← List.length_map Prod.snd, ← List.length_map Prod.snd, whole, List.append_nil]

theorem serial_created {limits : RiskLimits} {files : Fin shardCount → Files} {capacity : UInt64}
    (created : ThreadedShardedEngine.create limits files capacity = some start) : Serial start start [] := by
  obtain ⟨sound, inbound, -, workers, idle⟩ := create_shape created
  have counter := (created_engine created).2
  refine ⟨⟨sound, by simp [idle], fun shard => ?_, by simp [workers], by simp [appliedBy]⟩, fun _ _ => workers,
    fun shard => by simp [takenBy, appliedBy, heldFor, workers], rfl, counter, rfl⟩
  simp [submittedTo, takenBy, waitingFor, inbound, idle]

/-- The sequential run there is for every history. -/
theorem sequential_run (limits : RiskLimits) (files : Fin shardCount → Files) (messages : List CommandMsg) :
    ∃ sequential outcomes, run ShardedMatchingEngine.apply (.create limits files)
      (messages.map CommandMsg.call) = .ok (sequential, outcomes) := by
  obtain ⟨sequential, outcomes, ran, -⟩ := shards_run_alone limits files (messages.map CommandMsg.call)
  exact ⟨sequential, outcomes, ran⟩

/-- In every interleaving in which no push of `submit` empties a message, each
worker has done a front of what one thread does that gives the submitted
commands to the sharded engine in the order of their submission: the same calls
with the same events and trades. A worker that has caught up has done all of it,
and leaves its shard (books, counters, log and snapshot) as that thread does. -/
theorem workers_apply_in_submission_order {limits : RiskLimits} {files : Fin shardCount → Files} {capacity : UInt64}
    (created : ThreadedShardedEngine.create limits files capacity = some start)
    (actions : List (Action shardCount)) (keeps : Meets step PushKeeps start actions) :
    ∃ final observed sequential outcomes, run step start actions = .ok (final, observed) ∧
      run ShardedMatchingEngine.apply (.create limits files) ((submitted observed).map CommandMsg.call) =
        .ok (sequential, outcomes) ∧
      ∀ shard, appliedBy shard observed <+: answered shard (submitted observed) outcomes ∧
        (CaughtUp final shard → appliedBy shard observed = answered shard (submitted observed) outcomes ∧
          alone final.engine shard = alone sequential shard) := by
  obtain ⟨final, observed, ran, inv⟩ := Runs.run_history PushKeeps (Serial start)
    (fun state observed action inv keeps => serial_kept inv action keeps) [] (serial_created created) keeps
  rw [List.nil_append] at inv
  obtain ⟨sequential, outcomes, sequence⟩ := sequential_run limits files (submitted observed)
  refine ⟨final, observed, sequential, outcomes, ran, sequence, fun shard => worker_behind inv ?_ shard⟩
  rw [(created_engine created).1]
  exact sequence

theorem unhurried_bids_in_submission_order :
    ∃ final observed sequential outcomes, run step narrow unhurried = .ok (final, observed) ∧
      run ShardedMatchingEngine.apply (.create {} fun _ => {}) ((submitted observed).map CommandMsg.call) =
        .ok (sequential, outcomes) ∧
      ∀ shard, appliedBy shard observed <+: answered shard (submitted observed) outcomes ∧
        (CaughtUp final shard → appliedBy shard observed = answered shard (submitted observed) outcomes ∧
          alone final.engine shard = alone sequential shard) :=
  workers_apply_in_submission_order narrow_created unhurried (by decide +kernel)

/-! ## What comes out -/

/-- Neither thread's push empties a message that it did not store, and a worker
with a result finds the flag up. -/
def NothingEmptied (state : ThreadedShardedEngine shardCount) (action : Action shardCount) : Prop :=
  PushKeeps state action ∧ PublishKeeps state action

instance (state : ThreadedShardedEngine shardCount) (action : Action shardCount) :
    Decidable (NothingEmptied state action) :=
  inferInstanceAs (Decidable (_ ∧ _))

/-- Nothing of a shard is on its way, in either direction. -/
def AllOut (state : ThreadedShardedEngine shardCount) (shard : Fin shardCount) : Prop :=
  CaughtUp state shard ∧ (state.outbound shard).contents = [] ∧ heldBy state shard = []

/-- The result messages of a shard in the sequential run. -/
def sequentialResults (shard : Fin shardCount) (messages : List CommandMsg) (outcomes : List Outcome) :
    List ResultMsg :=
  (answered shard messages outcomes).map fun pair => pair.1.result pair.2

omit [NeZero shardCount] in
theorem outbound_created {limits : RiskLimits} {files : Fin shardCount → Files} {capacity : UInt64}
    (created : ThreadedShardedEngine.create limits files capacity = some start) : Outbound start [] := by
  obtain ⟨sound, -, outbound, workers, -⟩ := create_shape created
  exact ⟨sound, fun shard => by simp [resultsOf, appliedBy, drainedFrom, outbound, heldBy, workers],
    fun _ _ => workers⟩

/-- Both invariants hold after every such run. -/
theorem linear_run {limits : RiskLimits} {files : Fin shardCount → Files} {capacity : UInt64}
    (created : ThreadedShardedEngine.create limits files capacity = some start)
    (actions : List (Action shardCount)) (keeps : Meets step NothingEmptied start actions) :
    ∃ final observed, run step start actions = .ok (final, observed) ∧ Serial start final observed ∧
      Outbound final observed := by
  obtain ⟨final, observed, ran, inv⟩ := Runs.run_history NothingEmptied
    (fun state observed => Serial start state observed ∧ Outbound state observed)
    (fun state observed action ⟨inv, out⟩ ⟨inbound, outbound⟩ => by
      obtain ⟨next, shown, stepped, serial⟩ := serial_kept inv action inbound
      obtain ⟨next', shown', stepped', kept⟩ := outbound_kept out action outbound
      rw [stepped] at stepped'
      cases stepped'
      exact ⟨next, shown, stepped, serial, kept⟩)
    [] ⟨serial_created created, outbound_created created⟩ keeps
  exact ⟨final, observed, ran, inv⟩

/-- What `drain` returned is the front of what the sequential run gives for the
shard, and all of it once nothing is on its way. -/
theorem results_behind (inv : Serial start state observed) (out : Outbound state observed)
    {sequential : ShardedMatchingEngine shardCount} {outcomes : List Outcome}
    (ran : run ShardedMatchingEngine.apply start.engine ((submitted observed).map CommandMsg.call) =
      .ok (sequential, outcomes)) (shard : Fin shardCount) :
    drainedFrom shard observed <+: sequentialResults shard (submitted observed) outcomes ∧
      (AllOut state shard → drainedFrom shard observed = sequentialResults shard (submitted observed) outcomes ∧
        alone state.engine shard = alone sequential shard) := by
  obtain ⟨behind, whole⟩ := worker_behind inv ran shard
  have flow := out.flow shard
  have front : drainedFrom shard observed <+: resultsOf shard observed := ⟨_, flow.symm⟩
  refine ⟨front.trans (behind.map _), fun ⟨caughtUp, queue, held⟩ => ?_⟩
  obtain ⟨all, sameShard⟩ := whole caughtUp
  refine ⟨?_, sameShard⟩
  rw [queue, held, List.append_nil, List.append_nil] at flow
  rw [← flow, resultsOf, all]
  rfl

/-- In every interleaving in which nothing is emptied and workers publish with
the flag up, `drain` returns of each shard a front of the results one thread
would give, executing the submitted commands in the order of their submission;
all of them once nothing is on its way. The correlation ids of the submissions
are 1, 2, 3 and on, so each result says which submission it answers. -/
theorem drained_results_are_sequential {limits : RiskLimits} {files : Fin shardCount → Files} {capacity : UInt64}
    (created : ThreadedShardedEngine.create limits files capacity = some start)
    (actions : List (Action shardCount)) (keeps : Meets step NothingEmptied start actions) :
    ∃ final observed sequential outcomes, run step start actions = .ok (final, observed) ∧
      run ShardedMatchingEngine.apply (.create limits files) ((submitted observed).map CommandMsg.call) =
        .ok (sequential, outcomes) ∧
      (submitted observed).map CommandMsg.correlation =
        (List.range (submitted observed).length).map (fun place => UInt64.ofNat (place + 1)) ∧
      ∀ shard, drainedFrom shard observed <+: sequentialResults shard (submitted observed) outcomes ∧
        (AllOut final shard → drainedFrom shard observed = sequentialResults shard (submitted observed) outcomes ∧
          alone final.engine shard = alone sequential shard) := by
  obtain ⟨final, observed, ran, inv, out⟩ := linear_run created actions keeps
  obtain ⟨sequential, outcomes, sequence⟩ := sequential_run limits files (submitted observed)
  refine ⟨final, observed, sequential, outcomes, ran, sequence, inv.numbered, fun shard => ?_⟩
  rw [← (created_engine created).1] at sequence
  exact results_behind inv out sequence shard

theorem orderly_results_are_sequential :
    ∃ final observed sequential outcomes, run step narrow orderly = .ok (final, observed) ∧
      run ShardedMatchingEngine.apply (.create {} fun _ => {}) ((submitted observed).map CommandMsg.call) =
        .ok (sequential, outcomes) ∧
      (submitted observed).map CommandMsg.correlation =
        (List.range (submitted observed).length).map (fun place => UInt64.ofNat (place + 1)) ∧
      ∀ shard, drainedFrom shard observed <+: sequentialResults shard (submitted observed) outcomes ∧
        (AllOut final shard → drainedFrom shard observed = sequentialResults shard (submitted observed) outcomes ∧
          alone final.engine shard = alone sequential shard) :=
  drained_results_are_sequential narrow_created orderly (by decide +kernel)

end Exchange.PipelineLinear
