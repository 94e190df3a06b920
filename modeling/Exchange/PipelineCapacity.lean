import Exchange.PipelineLinear

/-! Queues with room for every submission. While no one stops the workers and no
more commands are submitted than a queue has slots, no push fails and no result
is dropped, whatever the interleaving, so every interleaving is linear. -/
namespace Exchange.PipelineCapacity
open PipelineInbound PipelineOutbound PipelineLinear ShardComponents
open ThreadedShardedEngine (step)

theorem push_capacity {α : Type} {queue grown : SpscQueue α} {value : α} (pushed : queue.push value = some grown) :
    grown.capacity = queue.capacity := by
  unfold SpscQueue.push at pushed
  simp only at pushed
  split at pushed
  · cases pushed
  · cases pushed
    rfl

theorem pop_capacity {α : Type} [Movable α] {queue rest : SpscQueue α} {value : α}
    (popped : queue.pop = some (value, rest)) : rest.capacity = queue.capacity := by
  unfold SpscQueue.pop at popped
  split at popped
  · cases popped
  · cases popped
    rfl

/-- No rounding yields less than what was asked for. -/
theorem doubleUpTo_ge {v p result : UInt64} {fuel : Nat} (found : SpscQueue.doubleUpTo v fuel p = some result) :
    v.toNat ≤ result.toNat := by
  induction fuel generalizing p with
  | zero => simp [SpscQueue.doubleUpTo] at found
  | succ fuel ih =>
    rw [SpscQueue.doubleUpTo] at found
    split at found
    · exact ih found
    · rename_i reached
      cases found
      exact UInt64.le_iff_toNat_le.mp (UInt64.not_lt.mp reached)

theorem create_capacity {α : Type} [Inhabited α] {capacity : UInt64} {queue : SpscQueue α}
    (created : SpscQueue.create capacity = some queue) : capacity.toNat ≤ queue.capacity.toNat := by
  unfold SpscQueue.create at created
  split at created
  · cases created
  · rename_i rounded found
    cases created
    exact doubleUpTo_ge found

variable {shardCount : Nat} {start state next : ThreadedShardedEngine shardCount}
  {observed : List (Option (Observation shardCount))} {shown : Option (Observation shardCount)}

/-- Nobody is stopping the workers, and every queue has so much room. -/
structure Roomy (room : Nat) (state : ThreadedShardedEngine shardCount) : Prop where
  notStopping : state.stopping = false
  inbound : ∀ shard, room ≤ (state.inbound shard).capacity.toNat
  outbound : ∀ shard, room ≤ (state.outbound shard).capacity.toNat

theorem roomy_update {room : Nat} {α : Type} {queues : Fin shardCount → SpscQueue α}
    (roomy : ∀ shard, room ≤ (queues shard).capacity.toNat) {own : Fin shardCount} {queue : SpscQueue α}
    (same : queue.capacity = (queues own).capacity) (shard : Fin shardCount) :
    room ≤ (Function.update queues own queue shard).capacity.toNat := by
  by_cases here : shard = own
  · subst here
    rw [Function.update_self, same]
    exact roomy shard
  · rw [Function.update_of_ne here]
    exact roomy shard

variable [NeZero shardCount]

theorem roomy_kept {room : Nat} (roomy : Roomy room state) {action : Action shardCount} (going : action ≠ .stop)
    (stepped : step state action = .ok (next, shown)) : Roomy room next := by
  cases action with
  | submit command number =>
    cases producer : state.producer with
    | none =>
      simp only [step, ThreadedShardedEngine.submit, producer] at stepped
      cases stepped
      exact ⟨roomy.notStopping, roomy.inbound, roomy.outbound⟩
    | some pending =>
      simp only [step, ThreadedShardedEngine.submit, producer] at stepped
      cases stepped
      exact roomy
  | push =>
    cases stepped
    unfold ThreadedShardedEngine.push
    split
    · exact roomy
    · rename_i own msg busy
      cases pushed : (state.inbound own).push msg with
      | none => exact ⟨roomy.notStopping, roomy.inbound, roomy.outbound⟩
      | some queue =>
        exact ⟨roomy.notStopping, roomy_update roomy.inbound (push_capacity pushed), roomy.outbound⟩
  | worker own =>
    simp only [step, ThreadedShardedEngine.workerStep] at stepped
    cases at_ : state.workers own with
    | exited =>
      simp only [at_] at stepped
      cases stepped
      exact roomy
    | atLoop | finished _ =>
      simp only [at_] at stepped
      cases stepped
      exact ⟨roomy.notStopping, roomy.inbound, roomy.outbound⟩
    | polling =>
      cases popped : (state.inbound own).pop with
      | none =>
        simp only [at_, popped] at stepped
        cases stepped
        exact ⟨roomy.notStopping, roomy.inbound, roomy.outbound⟩
      | some taken =>
        simp only [at_, popped] at stepped
        cases stepped
        exact ⟨roomy.notStopping, roomy_update roomy.inbound (pop_capacity popped), roomy.outbound⟩
    | holding msg =>
      cases called : state.engine.apply msg.call with
      | error fault => simp [at_, called, bind, Except.bind] at stepped
      | ok result =>
        simp only [at_, called, bind, Except.bind] at stepped
        cases stepped
        exact ⟨roomy.notStopping, roomy.inbound, roomy.outbound⟩
    | publishing result =>
      cases pushed : (state.outbound own).push result with
      | none =>
        simp only [at_, pushed] at stepped
        cases stepped
        exact ⟨roomy.notStopping, roomy.inbound, roomy.outbound⟩
      | some queue =>
        simp only [at_, pushed] at stepped
        cases stepped
        exact ⟨roomy.notStopping, roomy.inbound, roomy_update roomy.outbound (push_capacity pushed)⟩
  | drain =>
    cases stepped
    exact ⟨roomy.notStopping, roomy.inbound, roomy.outbound⟩
  | collect =>
    have same : state.collect = (next, shown) := Except.ok.inj stepped
    rcases collect_cases state with ⟨place, moved⟩ | ⟨own, result, queue, popped, taken⟩
    · rw [moved] at same
      cases same
      exact ⟨roomy.notStopping, roomy.inbound, roomy.outbound⟩
    · rw [taken] at same
      cases same
      exact ⟨roomy.notStopping, roomy.inbound, roomy_update roomy.outbound (pop_capacity popped)⟩
  | start =>
    cases stepped
    unfold ThreadedShardedEngine.start
    split
    · exact roomy
    · exact ⟨roomy.notStopping, roomy.inbound, roomy.outbound⟩
  | stop => exact absurd rfl going
  | join =>
    cases stepped
    unfold ThreadedShardedEngine.join
    split
    · exact ⟨rfl, roomy.inbound, roomy.outbound⟩
    · exact roomy

omit [NeZero shardCount] in
theorem roomy_created {limits : RiskLimits} {files : Fin shardCount → Files} {capacity : UInt64}
    (created : ThreadedShardedEngine.create limits files capacity = some start) : Roomy capacity.toNat start := by
  simp only [ThreadedShardedEngine.create, bind, Option.bind_eq_some_iff] at created
  obtain ⟨inbound, first, outbound, second, same⟩ := created
  cases same
  exact ⟨rfl, fun _ => create_capacity first, fun _ => create_capacity second⟩

/-- With room for every submission no push finds its queue full. -/
theorem nothingEmptied_of_room {room : Nat} (roomy : Roomy room state) (inv : Serial start state observed)
    (out : Outbound state observed) (few : (submitted observed).length ≤ room) (action : Action shardCount) :
    NothingEmptied state action := by
  have sent : ∀ shard, (submittedTo shard observed).length ≤ room := by
    intro shard
    rw [submittedTo_eq]
    exact (List.length_filter_le _ _).trans few
  constructor
  · cases action with
    | push =>
      cases busy : state.producer with
      | none => simp only [PushKeeps, busy]
      | some pending =>
        obtain ⟨own, msg⟩ := pending
        simp only [PushKeeps, busy]
        intro full
        have count := congrArg List.length (inv.inbound.flow own)
        have size := ((state.inbound own).push_none_iff msg).mp (Option.isNone_iff_eq_none.mp full)
        have most := roomy.inbound own
        have sentOwn := sent own
        simp only [waitingFor, busy, ↓reduceIte, List.length_append, List.length_cons, List.length_nil] at count
        omega
    | _ => trivial
  · cases action with
    | worker own =>
      cases at_ : state.workers own with
      | finished result =>
        simp only [PublishKeeps, at_]
        by_contra down
        have left := out.stopped (by simpa using down) roomy.notStopping own
        rw [at_] at left
        cases left
      | publishing result =>
        simp only [PublishKeeps, at_]
        intro full
        have count := congrArg List.length (out.flow own)
        have size := ((state.outbound own).push_none_iff result).mp (Option.isNone_iff_eq_none.mp full)
        have most := roomy.outbound own
        have sentOwn := sent own
        have took := congrArg List.length (inv.flow own)
        have arrived := congrArg List.length (inv.inbound.flow own)
        simp only [resultsOf, heldBy, at_, List.length_append, List.length_map, List.length_cons,
          List.length_nil] at count took arrived
        omega
      | _ => simp only [PublishKeeps, at_]
    | _ => trivial

def isSubmit : Action shardCount → Bool
  | .submit _ _ => true
  | _ => false

/-- A step submits at most one command, and only `submit` does. -/
theorem submitted_grows {action : Action shardCount} (stepped : step state action = .ok (next, shown)) :
    (submitted [shown]).length ≤ if isSubmit action then 1 else 0 := by
  cases action with
  | submit command number =>
    rcases shown with _ | (msg | ⟨other, msg⟩ | ⟨other, msg, outcome⟩ | ⟨other, result⟩) <;>
      simp [submitted, isSubmit]
  | worker own =>
    simp only [step, ThreadedShardedEngine.workerStep] at stepped
    cases at_ : state.workers own with
    | exited | atLoop | finished _ =>
      simp only [at_] at stepped
      cases stepped
      simp [submitted]
    | polling =>
      cases popped : (state.inbound own).pop <;>
        (simp only [at_, popped] at stepped; cases stepped; simp [submitted])
    | holding msg =>
      cases called : state.engine.apply msg.call with
      | error fault => simp [at_, called, bind, Except.bind] at stepped
      | ok result =>
        simp only [at_, called, bind, Except.bind] at stepped
        cases stepped
        simp [submitted]
    | publishing result =>
      cases pushed : (state.outbound own).push result <;>
        (simp only [at_, pushed] at stepped; cases stepped; simp [submitted])
  | collect =>
    have same : state.collect = (next, shown) := Except.ok.inj stepped
    rcases collect_cases state with ⟨place, moved⟩ | ⟨own, result, queue, -, taken⟩
    · rw [moved] at same
      cases same
      simp [submitted]
    · rw [taken] at same
      cases same
      simp [submitted]
  | push | drain | start | stop | join =>
    cases stepped
    simp [submitted]

/-- Nothing is emptied in a run with room for what it submits. -/
theorem run_nothingEmptied {room : Nat} (roomy : Roomy room state) (inv : Serial start state observed)
    (out : Outbound state observed) (actions : List (Action shardCount))
    (few : (submitted observed).length + actions.countP isSubmit ≤ room)
    (going : ∀ action ∈ actions, action ≠ .stop) :
    Meets step NothingEmptied state actions := by
  induction actions generalizing state observed with
  | nil => trivial
  | cons action actions ih =>
    have kept := nothingEmptied_of_room roomy inv out (by omega) action
    obtain ⟨next, shown, stepped, inv'⟩ := serial_kept inv action kept.1
    obtain ⟨next', shown', stepped', out'⟩ := outbound_kept out action kept.2
    rw [stepped] at stepped'
    cases stepped'
    refine ⟨kept, ?_⟩
    simp only [stepped]
    refine ih (roomy_kept roomy (going action (by simp)) stepped) inv' out' ?_
      fun later member => going later (List.mem_cons_of_mem _ member)
    have grown := submitted_grows stepped
    rw [submitted_append, List.length_append]
    rw [List.countP_cons] at few
    omega

/-- Every interleaving that submits at most as many commands as the requested
capacity and stops no one: nothing is lost, changed or reordered in either
direction, and each shard's results are those of one thread executing the
submitted commands in the order of their submission, as far as they are out. -/
theorem roomy_interleavings_are_sequential {limits : RiskLimits} {files : Fin shardCount → Files} {capacity : UInt64}
    (created : ThreadedShardedEngine.create limits files capacity = some start) (actions : List (Action shardCount))
    (few : actions.countP isSubmit ≤ capacity.toNat) (going : ∀ action ∈ actions, action ≠ .stop) :
    ∃ final observed sequential outcomes, run step start actions = .ok (final, observed) ∧
      run ShardedMatchingEngine.apply (.create limits files) ((submitted observed).map CommandMsg.call) =
        .ok (sequential, outcomes) ∧
      ∀ shard, takenBy shard observed <+: submittedTo shard observed ∧
        drainedFrom shard observed <+: sequentialResults shard (submitted observed) outcomes ∧
        (AllOut final shard → drainedFrom shard observed = sequentialResults shard (submitted observed) outcomes ∧
          alone final.engine shard = alone sequential shard) := by
  have roomy := roomy_created created
  have meets := run_nothingEmptied roomy (serial_created created) (outbound_created created) actions
    (by simpa [submitted] using few) going
  obtain ⟨final, observed, ran, inv, out⟩ := linear_run created actions meets
  obtain ⟨sequential, outcomes, sequence⟩ := sequential_run limits files (submitted observed)
  refine ⟨final, observed, sequential, outcomes, ran, sequence, fun shard => ?_⟩
  rw [← (created_engine created).1] at sequence
  exact ⟨⟨_, (inv.inbound.flow shard).symm⟩, results_behind inv out sequence shard⟩

/-- Two shards with queues of two slots. -/
def twoSlots : ThreadedShardedEngine 2 :=
  (ThreadedShardedEngine.create {} (fun _ => {}) 2).get (by decide)

theorem twoSlots_created : ThreadedShardedEngine.create {} (fun _ => {}) 2 = some twoSlots :=
  (Option.some_get _).symm

theorem hurried_going : ∀ action ∈ hurried, action ≠ .stop := by
  have going : hurried.all (fun action => match action with | .stop => false | _ => true) = true := by decide
  intro action member same
  subst same
  exact absurd (List.all_eq_true.mp going _ member) (by simp)

/-- The interleaving that empties a bid where queues have one slot. -/
theorem hurried_bids_on_two_slots :
    ∃ final observed sequential outcomes, run step twoSlots hurried = .ok (final, observed) ∧
      run ShardedMatchingEngine.apply (.create {} fun _ => {}) ((submitted observed).map CommandMsg.call) =
        .ok (sequential, outcomes) ∧
      ∀ shard, takenBy shard observed <+: submittedTo shard observed ∧
        drainedFrom shard observed <+: sequentialResults shard (submitted observed) outcomes ∧
        (AllOut final shard → drainedFrom shard observed = sequentialResults shard (submitted observed) outcomes ∧
          alone final.engine shard = alone sequential shard) :=
  roomy_interleavings_are_sequential twoSlots_created hurried (by decide) hurried_going

end Exchange.PipelineCapacity
