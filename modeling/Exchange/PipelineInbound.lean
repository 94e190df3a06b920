import Exchange.Pipeline
import Exchange.Runs
import Exchange.ShardedSteps

/-! The way of a command through the pipeline. What was submitted to a shard is
what its worker took, then what is in its queue, then what the producer still
holds; so it is in every interleaving in which no push empties a message that it
did not store. -/
namespace Exchange.PipelineInbound
open EngineInvariant ShardedSteps
open ShardedMatchingEngine (shardOf)
open ThreadedShardedEngine (step)

variable {shardCount : Nat}

/-! ## Histories -/

/-- The messages a worker took from its queue. -/
def takenBy (shard : Fin shardCount) (observed : List (Option (Observation shardCount))) : List CommandMsg :=
  observed.filterMap fun
    | some (.took other msg) => if other = shard then some msg else none
    | _ => none

/-- The messages a worker called the engine for, each with what it returned. -/
def appliedBy (shard : Fin shardCount) (observed : List (Option (Observation shardCount))) :
    List (CommandMsg × Outcome) :=
  observed.filterMap fun
    | some (.applied other msg outcome) => if other = shard then some (msg, outcome) else none
    | _ => none

/-- The results of a shard that `drain` returned. -/
def drainedFrom (shard : Fin shardCount) (observed : List (Option (Observation shardCount))) :
    List ResultMsg :=
  observed.filterMap fun
    | some (.drained other result) => if other = shard then some result else none
    | _ => none

section
variable (shard : Fin shardCount) (observed more : List (Option (Observation shardCount)))

theorem takenBy_append : takenBy shard (observed ++ more) = takenBy shard observed ++ takenBy shard more :=
  List.filterMap_append

theorem appliedBy_append :
    appliedBy shard (observed ++ more) = appliedBy shard observed ++ appliedBy shard more :=
  List.filterMap_append

theorem drainedFrom_append :
    drainedFrom shard (observed ++ more) = drainedFrom shard observed ++ drainedFrom shard more :=
  List.filterMap_append

end

/-- The message the producer is about to push to a shard. -/
def waitingFor (state : ThreadedShardedEngine shardCount) (shard : Fin shardCount) : List CommandMsg :=
  match state.producer with
  | some (target, msg) => if target = shard then [msg] else []
  | none => []

variable {state next : ThreadedShardedEngine shardCount}

/-- `drain` goes on to another queue, returns, or takes a result. -/
theorem collect_cases (state : ThreadedShardedEngine shardCount) :
    (∃ place, state.collect = ({ state with consumer := place }, none)) ∨
      ∃ shard result queue, (state.outbound shard).pop = some (result, queue) ∧
        state.collect = ({ state with outbound := Function.update state.outbound shard queue },
          some (.drained shard result)) := by
  unfold ThreadedShardedEngine.collect
  cases at_ : state.consumer with
  | none => exact .inl ⟨state.consumer, rfl⟩
  | some place =>
    by_cases inside : place < shardCount
    · cases popped : (state.outbound ⟨place, inside⟩).pop with
      | none => exact .inl ⟨some (place + 1), by simp [inside, popped]⟩
      | some taken =>
        exact .inr ⟨⟨place, inside⟩, taken.1, taken.2, popped, by simp [inside, popped, ← at_]⟩
    · exact .inl ⟨none, by simp [inside]⟩

/-- Changing a worker to a state without a command. -/
theorem holding_of_setWorker {shard : Fin shardCount} {worker : WorkerState}
    (empty : ∀ msg, worker ≠ .holding msg) (other : Fin shardCount) (msg : CommandMsg)
    (holding : (state.setWorker shard worker).workers other = .holding msg) :
    state.workers other = .holding msg := by
  by_cases here : other = shard
  · subst here
    simp only [ThreadedShardedEngine.setWorker, Function.update_self] at holding
    exact absurd holding (empty msg)
  · simpa only [ThreadedShardedEngine.setWorker, Function.update_of_ne here] using holding

section
variable [NeZero shardCount]

/-- The messages of the submitted commands that route to a shard. -/
def submittedTo (shard : Fin shardCount) (observed : List (Option (Observation shardCount))) :
    List CommandMsg :=
  observed.filterMap fun
    | some (.submitted msg) => if shardOf msg.command.symbol = shard then some msg else none
    | _ => none

theorem submittedTo_append (shard : Fin shardCount)
    (observed more : List (Option (Observation shardCount))) :
    submittedTo shard (observed ++ more) = submittedTo shard observed ++ submittedTo shard more :=
  List.filterMap_append

end

/-! ## Engine calls -/

/-- Every shard's engine is sound. -/
def Sound (state : ThreadedShardedEngine shardCount) : Prop :=
  ∀ shard, WellFormed (state.engine.engines shard)

theorem create_shape {limits : RiskLimits} {files : Fin shardCount → Files} {capacity : UInt64}
    (created : ThreadedShardedEngine.create limits files capacity = some state) :
    Sound state ∧ (∀ shard, (state.inbound shard).contents = []) ∧
      (∀ shard, (state.outbound shard).contents = []) ∧ (∀ shard, state.workers shard = .exited) ∧
      state.producer = none := by
  simp only [ThreadedShardedEngine.create, bind, Option.bind_eq_some_iff] at created
  obtain ⟨inbound, first, outbound, second, same⟩ := created
  cases same
  exact ⟨fun shard => wellFormed_empty, fun shard => SpscQueue.create_contents first,
    fun shard => SpscQueue.create_contents second, fun shard => rfl, rfl⟩

variable [NeZero shardCount]

theorem call_sound (sound : Sound state) (msg : CommandMsg) :
    ∃ engine outcome, state.engine.apply msg.call = .ok (engine, outcome) ∧
      ∀ shard, WellFormed (engine.engines shard) :=
  apply_sound sound msg.call

/-! ## Inbound -/

variable {observed : List (Option (Observation shardCount))} {shown : Option (Observation shardCount)}

/-- A push of `submit` that finds its queue full has nothing to empty. -/
def PushKeeps (state : ThreadedShardedEngine shardCount) : Action shardCount → Prop
  | .push =>
    match state.producer with
    | some (shard, msg) => ((state.inbound shard).push msg).isNone → Movable.moved msg = msg
    | none => True
  | _ => True

instance (state : ThreadedShardedEngine shardCount) :
    ∀ action, Decidable (PushKeeps state action)
  | .push =>
    match inside : state.producer with
    | some (shard, msg) =>
      decidable_of_iff (((state.inbound shard).push msg).isNone → Movable.moved msg = msg)
        (by simp only [PushKeeps, inside])
    | none => isTrue (by simp only [PushKeeps, inside])
  | .submit _ _ | .worker _ | .drain | .collect | .start | .stop | .join => isTrue trivial

/-- Nothing is lost, changed or reordered on the way to the workers. -/
structure Inbound (state : ThreadedShardedEngine shardCount)
    (observed : List (Option (Observation shardCount))) : Prop where
  sound : Sound state
  routed : ∀ shard msg, state.producer = some (shard, msg) → shardOf msg.command.symbol = shard
  flow : ∀ shard, submittedTo shard observed =
    takenBy shard observed ++ ((state.inbound shard).contents ++ waitingFor state shard)
  held : ∀ shard msg, state.workers shard = .holding msg → msg ∈ takenBy shard observed
  called : ∀ shard, ∀ issued ∈ appliedBy shard observed, issued.1 ∈ takenBy shard observed

/-- A step that moves no command. -/
theorem inbound_quiet (inv : Inbound state observed) (sound : Sound next)
    (queues : next.inbound = state.inbound) (producer : next.producer = state.producer)
    (workers : ∀ shard msg, next.workers shard = .holding msg → state.workers shard = .holding msg)
    (silent : shown = none ∨ ∃ shard result, shown = some (.drained shard result)) :
    Inbound next (observed ++ [shown]) := by
  have histories : ∀ shard, submittedTo shard (observed ++ [shown]) = submittedTo shard observed ∧
      takenBy shard (observed ++ [shown]) = takenBy shard observed ∧
      appliedBy shard (observed ++ [shown]) = appliedBy shard observed := by
    intro shard
    rcases silent with rfl | ⟨other, result, rfl⟩ <;> simp [submittedTo, takenBy, appliedBy]
  refine ⟨sound, ?_, fun shard => ?_, fun shard msg holding => ?_, fun shard issued member => ?_⟩
  · rw [producer]
    exact inv.routed
  · rw [(histories shard).1, (histories shard).2.1, queues, waitingFor, producer]
    exact inv.flow shard
  · rw [(histories shard).2.1]
    exact inv.held shard msg (workers shard msg holding)
  · rw [(histories shard).2.2] at member
    rw [(histories shard).2.1]
    exact inv.called shard issued member

theorem inbound_submit (inv : Inbound state observed) (command : Command) (number : Option Int64) :
    Inbound (state.submit command number).1 (observed ++ [(state.submit command number).2]) := by
  unfold ThreadedShardedEngine.submit
  cases idle : state.producer with
  | some pending => exact inbound_quiet inv inv.sound rfl rfl (fun _ _ holding => holding) (.inl rfl)
  | none =>
    refine ⟨inv.sound, ?_, fun shard => ?_, fun shard msg holding => ?_, fun shard issued member => ?_⟩
    · intro shard msg entered
      cases entered
      rfl
    · have before := inv.flow shard
      simp only [waitingFor, idle, List.append_nil] at before
      rw [submittedTo_append, takenBy_append, before]
      by_cases here : shardOf command.symbol = shard <;> simp [submittedTo, takenBy, waitingFor, here]
    · have taken := inv.held shard msg holding
      simpa [takenBy] using taken
    · have taken := inv.called shard issued (by simpa [appliedBy] using member)
      simpa [takenBy] using taken

theorem inbound_push (inv : Inbound state observed) (keeps : PushKeeps state .push) :
    Inbound state.push (observed ++ [none]) := by
  unfold ThreadedShardedEngine.push
  cases busy : state.producer with
  | none => exact inbound_quiet inv inv.sound rfl rfl (fun _ _ holding => holding) (.inl rfl)
  | some target =>
    obtain ⟨own, msg⟩ := target
    simp only
    cases pushed : (state.inbound own).push msg with
    | none =>
      simp only [PushKeeps, busy, pushed, Option.isNone_none, true_implies] at keeps
      refine inbound_quiet inv inv.sound rfl ?_ (fun _ _ holding => holding) (.inl rfl)
      simp only [keeps]
      exact busy.symm
    | some queue =>
      refine ⟨inv.sound, by simp, fun shard => ?_, fun shard msg holding => ?_, fun shard issued member => ?_⟩
      · have before := inv.flow shard
        have grown := SpscQueue.push_contents pushed
        simp only [waitingFor, busy] at before
        rw [submittedTo_append, takenBy_append, before]
        by_cases here : own = shard
        · subst here
          simp [submittedTo, takenBy, waitingFor, grown]
        · simp [submittedTo, takenBy, waitingFor, here, Function.update_of_ne (Ne.symm here)]
      · have taken := inv.held shard msg holding
        simpa [takenBy] using taken
      · have taken := inv.called shard issued (by simpa [appliedBy] using member)
        simpa [takenBy] using taken

/-- A worker takes the oldest message of its queue. -/
theorem inbound_took (inv : Inbound state observed) {shard : Fin shardCount} {msg : CommandMsg}
    {queue : SpscQueue CommandMsg} (popped : (state.inbound shard).pop = some (msg, queue)) :
    Inbound { state.setWorker shard (.holding msg) with
      inbound := Function.update state.inbound shard queue } (observed ++ [some (.took shard msg)]) := by
  have front := SpscQueue.pop_contents popped
  refine ⟨inv.sound, inv.routed, fun other => ?_, fun other held holding => ?_, fun other issued member => ?_⟩
  · have before := inv.flow other
    rw [submittedTo_append, takenBy_append, before]
    by_cases here : shard = other
    · subst here
      simp [submittedTo, takenBy, waitingFor, front]
      rfl
    · simp [submittedTo, takenBy, waitingFor, here, Function.update_of_ne (Ne.symm here)]
      rfl
  · rw [takenBy_append]
    by_cases here : shard = other
    · subst here
      simp only [ThreadedShardedEngine.setWorker, Function.update_self, WorkerState.holding.injEq] at holding
      simp [takenBy, holding]
    · simp only [ThreadedShardedEngine.setWorker, Function.update_of_ne (Ne.symm here)] at holding
      exact List.mem_append_left _ (inv.held other held holding)
  · rw [takenBy_append]
    exact List.mem_append_left _ (inv.called other issued (by simpa [appliedBy] using member))

/-- A worker calls the engine for the message it took. -/
theorem inbound_applied (inv : Inbound state observed) {shard : Fin shardCount} {msg : CommandMsg}
    (holding : state.workers shard = .holding msg) {engine : ShardedMatchingEngine shardCount}
    (sound : ∀ shard, WellFormed (engine.engines shard)) (outcome : Outcome) (result : ResultMsg) :
    Inbound { state.setWorker shard (.finished result) with engine }
      (observed ++ [some (.applied shard msg outcome)]) := by
  refine ⟨sound, inv.routed, fun other => ?_, fun other held holding' => ?_, fun other issued member => ?_⟩
  · have before := inv.flow other
    rw [submittedTo_append, takenBy_append, before]
    simp [submittedTo, takenBy, waitingFor]
    rfl
  · rw [takenBy_append]
    by_cases here : shard = other
    · subst here
      simp [ThreadedShardedEngine.setWorker] at holding'
    · simp only [ThreadedShardedEngine.setWorker, Function.update_of_ne (Ne.symm here)] at holding'
      exact List.mem_append_left _ (inv.held other held holding')
  · rw [appliedBy_append, List.mem_append] at member
    rw [takenBy_append]
    refine List.mem_append_left _ ?_
    rcases member with before | now
    · exact inv.called other issued before
    · by_cases here : shard = other
      · subst here
        simp only [appliedBy, List.filterMap_cons, ↓reduceIte, List.filterMap_nil, List.mem_singleton] at now
        subst now
        exact inv.held shard msg holding
      · simp [appliedBy, here] at now

theorem inbound_worker (inv : Inbound state observed) (shard : Fin shardCount) :
    ∃ next shown, state.workerStep shard = .ok (next, shown) ∧ Inbound next (observed ++ [shown]) := by
  unfold ThreadedShardedEngine.workerStep
  cases at_ : state.workers shard with
  | exited => exact ⟨_, _, rfl, inbound_quiet inv inv.sound rfl rfl (fun _ _ holding => holding) (.inl rfl)⟩
  | atLoop =>
    refine ⟨_, _, rfl, inbound_quiet inv inv.sound rfl rfl (holding_of_setWorker ?_) (.inl rfl)⟩
    split <;> simp
  | polling =>
    cases popped : (state.inbound shard).pop with
    | none =>
      exact ⟨_, _, rfl, inbound_quiet inv inv.sound rfl rfl (holding_of_setWorker (by simp)) (.inl rfl)⟩
    | some taken => exact ⟨_, _, rfl, inbound_took inv popped⟩
  | holding msg =>
    obtain ⟨engine, outcome, ran, sound⟩ := call_sound inv.sound msg
    refine ⟨_, _, ?_, inbound_applied inv at_ sound outcome (msg.result outcome)⟩
    simp only [ran, bind, Except.bind]
  | finished result =>
    refine ⟨_, _, rfl, inbound_quiet inv inv.sound rfl rfl (holding_of_setWorker ?_) (.inl rfl)⟩
    split <;> simp
  | publishing result =>
    cases pushed : (state.outbound shard).push result with
    | none =>
      simp only [pushed]
      exact ⟨_, _, rfl, inbound_quiet inv inv.sound rfl rfl (holding_of_setWorker (by simp)) (.inl rfl)⟩
    | some queue =>
      simp only [pushed]
      exact ⟨_, _, rfl, inbound_quiet inv inv.sound rfl rfl (holding_of_setWorker (by simp)) (.inl rfl)⟩

/-- One step, of any thread. -/
theorem inbound_kept (inv : Inbound state observed) (action : Action shardCount)
    (keeps : PushKeeps state action) :
    ∃ next shown, step state action = .ok (next, shown) ∧ Inbound next (observed ++ [shown]) := by
  cases action with
  | submit command number => exact ⟨_, _, rfl, inbound_submit inv command number⟩
  | push => exact ⟨_, _, rfl, inbound_push inv keeps⟩
  | worker shard => exact inbound_worker inv shard
  | drain => exact ⟨_, _, rfl, inbound_quiet inv inv.sound rfl rfl (fun _ _ holding => holding) (.inl rfl)⟩
  | collect =>
    refine ⟨state.collect.1, state.collect.2, rfl, ?_⟩
    rcases collect_cases state with ⟨place, moved⟩ | ⟨shard, result, queue, -, popped⟩
    · rw [moved]
      exact inbound_quiet inv inv.sound rfl rfl (fun _ _ holding => holding) (.inl rfl)
    · rw [popped]
      exact inbound_quiet inv inv.sound rfl rfl (fun _ _ holding => holding) (.inr ⟨_, _, rfl⟩)
  | start =>
    refine ⟨state.start, none, rfl, ?_⟩
    unfold ThreadedShardedEngine.start
    split
    · exact inbound_quiet inv inv.sound rfl rfl (fun _ _ holding => holding) (.inl rfl)
    · exact inbound_quiet inv inv.sound rfl rfl (fun _ _ holding => by cases holding) (.inl rfl)
  | stop =>
    refine ⟨state.stop, none, rfl, ?_⟩
    unfold ThreadedShardedEngine.stop
    split <;> exact inbound_quiet inv inv.sound rfl rfl (fun _ _ holding => holding) (.inl rfl)
  | join =>
    refine ⟨state.join, none, rfl, ?_⟩
    unfold ThreadedShardedEngine.join
    split <;> exact inbound_quiet inv inv.sound rfl rfl (fun _ _ holding => holding) (.inl rfl)

/-- In every interleaving in which no push of `submit` empties a message, a
worker takes a front of the commands submitted to its shard, as they were
submitted, and calls the engine for its own symbols only. -/
theorem workers_take_what_was_submitted {limits : RiskLimits} {files : Fin shardCount → Files}
    {capacity : UInt64} (created : ThreadedShardedEngine.create limits files capacity = some state)
    (actions : List (Action shardCount)) (keeps : Meets step PushKeeps state actions) :
    ∃ final observed, run step state actions = .ok (final, observed) ∧ ∀ shard,
      takenBy shard observed <+: submittedTo shard observed ∧
      ∀ issued ∈ appliedBy shard observed, shardOf issued.1.command.symbol = shard := by
  obtain ⟨sound, inbound, -, workers, idle⟩ := create_shape created
  have start : Inbound state [] := by
    refine ⟨sound, by simp [idle], fun shard => ?_, by simp [workers], by simp [appliedBy]⟩
    simp [submittedTo, takenBy, waitingFor, inbound, idle]
  obtain ⟨final, observed, ran, inv⟩ := Runs.run_history PushKeeps Inbound
    (fun state observed action inv keeps => inbound_kept inv action keeps) [] start keeps
  rw [List.nil_append] at inv
  refine ⟨final, observed, ran, fun shard => ?_⟩
  have front : takenBy shard observed <+: submittedTo shard observed := ⟨_, (inv.flow shard).symm⟩
  refine ⟨front, fun issued member => ?_⟩
  have submitted := front.subset (inv.called shard issued member)
  simp only [submittedTo, List.mem_filterMap] at submitted
  obtain ⟨shown, -, found⟩ := submitted
  split at found
  · split at found
    · cases found
      assumption
    · cases found
  · cases found

/-- Two shards with queues of one slot. -/
def narrow : ThreadedShardedEngine 2 :=
  (ThreadedShardedEngine.create {} (fun _ => {}) 1).get (by decide)

theorem narrow_created : ThreadedShardedEngine.create {} (fun _ => {}) 1 = some narrow :=
  (Option.some_get _).symm

/-- A bid of one participant on a symbol of shard 0. -/
def bidBy (participant : String) (orderId : Int64) : Command :=
  .add { symbol := ascii "S", orderId, participantId := ascii participant, priceTicks := 100, quantity := 5 }

/-- A step of the worker of shard 0, and one of the worker of shard 1. -/
def worker0 : Action 2 := .worker 0

def worker1 : Action 2 := .worker 1

/-- Two bids, the second submitted once the first was taken. -/
def unhurried : List (Action 2) :=
  [.start, .submit (bidBy "A" 1) none, .push, worker0, worker0, .submit (bidBy "B" 2) none, .push,
    worker0, worker0, worker0, worker0, worker0, worker0]

theorem unhurried_commands_arrive :
    ∃ final observed, run step narrow unhurried = .ok (final, observed) ∧ ∀ shard,
      takenBy shard observed <+: submittedTo shard observed ∧
      ∀ issued ∈ appliedBy shard observed, shardOf issued.1.command.symbol = shard :=
  workers_take_what_was_submitted narrow_created unhurried (by decide +kernel)

/-- The second bid meets a full queue once, and is pushed when there is room. -/
def hurried : List (Action 2) :=
  [.start, .submit (bidBy "A" 1) none, .push, .submit (bidBy "B" 2) none, .push, worker0, worker0, .push,
    worker0, worker0, worker0, worker0, worker0, worker0]

/-- After one failed push, worker 0 takes the second bid without its symbol and
participant, and calls the engine for a symbol of shard 1. -/
theorem failed_push_empties_the_command :
    ∃ final observed, run step narrow hurried = .ok (final, observed) ∧
      ¬ takenBy 0 observed <+: submittedTo 0 observed ∧
      ∃ issued ∈ appliedBy 0 observed, shardOf issued.1.command.symbol ≠ (0 : Fin 2) := by
  have known : (run step narrow hurried).map (fun result =>
      (decide (takenBy 0 result.2 <+: submittedTo 0 result.2),
        (appliedBy 0 result.2).any fun issued => shardOf issued.1.command.symbol ≠ (0 : Fin 2))) =
      .ok (false, true) := by
    decide +kernel
  cases ran : run step narrow hurried with
  | error fault =>
    rw [ran] at known
    cases known
  | ok result =>
    rw [ran] at known
    have both := Prod.mk.inj (Except.ok.inj known)
    exact ⟨result.1, result.2, rfl, of_decide_eq_false both.1, by simpa using both.2⟩

end Exchange.PipelineInbound
