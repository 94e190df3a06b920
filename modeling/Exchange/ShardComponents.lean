import Exchange.Components
import Exchange.ShardedSteps

/-! The shards of a sharded engine run by themselves. What one shard does, down
to its event numbers, its ingress counter and the bytes of its log, is what an
engine of one shard does with the calls that concern it. -/
namespace Exchange.ShardComponents
open EngineInvariant ShardedSteps
open ShardedMatchingEngine (shardOf Call)

variable {shardCount : Nat}

/-- One shard as an engine of its own. -/
def alone (state : ShardedMatchingEngine shardCount) (shard : Fin shardCount) : ShardedMatchingEngine 1 where
  engines _ := state.engines shard
  wals _ := state.wals shard
  limits := state.limits
  lastIngressSequence _ := state.lastIngressSequence shard

variable {state next : ShardedMatchingEngine shardCount} {shard : Fin shardCount}

theorem alone_setEngine (own : Fin 1) (engine : MatchingEngine) :
    alone (state.setEngine shard engine) shard = (alone state shard).setEngine own engine := by
  simp [alone, ShardedMatchingEngine.setEngine, Subsingleton.elim _ own]

theorem alone_log (own : Fin 1) (line : Json) :
    alone (state.log shard line) shard = (alone state shard).log own line := by
  simp [alone, ShardedMatchingEngine.log, ShardedMatchingEngine.setWal, Subsingleton.elim _ own]

theorem alone_setEngine_other {own : Fin shardCount} (away : shard ≠ own) (engine : MatchingEngine) :
    alone (state.setEngine own engine) shard = alone state shard := by
  simp [alone, ShardedMatchingEngine.setEngine, away]

theorem alone_log_other {own : Fin shardCount} (away : shard ≠ own) (line : Json) :
    alone (state.log own line) shard = alone state shard := by
  simp [alone, ShardedMatchingEngine.log, ShardedMatchingEngine.setWal, away]

/-- The sequence check of a shard is its own. -/
theorem validate_alone (state : ShardedMatchingEngine shardCount) (shard : Fin shardCount) (own : Fin 1)
    (number : Option Int64) (symbol : Bytes) (orderId : Int64) :
    (alone state shard).validateIngress own number symbol orderId =
      (alone (state.validateIngress shard number symbol orderId).1 shard,
        (state.validateIngress shard number symbol orderId).2) := by
  cases number with
  | none => rfl
  | some number =>
    have counter : (alone state shard).lastIngressSequence own = state.lastIngressSequence shard := rfl
    unfold ShardedMatchingEngine.validateIngress
    rw [counter]
    by_cases stale : number ≤ state.lastIngressSequence shard
    · simp only [stale, ↓reduceIte, alone_setEngine own]
      rfl
    · simp [stale, alone, Subsingleton.elim _ own]

theorem validate_other {own : Fin shardCount} (away : shard ≠ own) (number : Option Int64) (symbol : Bytes)
    (orderId : Int64) : alone (state.validateIngress own number symbol orderId).1 shard = alone state shard := by
  cases number with
  | none => rfl
  | some number =>
    unfold ShardedMatchingEngine.validateIngress
    by_cases stale : number ≤ state.lastIngressSequence own
    · simp only [stale, ↓reduceIte]
      exact alone_setEngine_other away _
    · simp [stale, alone, away]

/-- What the three calls have in common: the sequence check, the risk check of
an add, a line of the log, and the call of the shard's engine. -/
def dispatch (state : ShardedMatchingEngine shardCount) (shard : Fin shardCount) (number : Option Int64)
    (symbol : Bytes) (orderId : Int64) (refused : RiskLimits → Option (Bytes × Json)) (line : Json)
    (operation : MatchingEngine → Except Fault (MatchingEngine × Outcome)) :
    Except Fault (ShardedMatchingEngine shardCount × Outcome) :=
  match state.validateIngress shard number symbol orderId with
  | (state, some rejected) => .ok (state, ⟨[rejected], []⟩)
  | (state, none) =>
    match refused state.limits with
    | some (reason, line) =>
      .ok ((state.setEngine shard ((state.engines shard).reject symbol orderId reason).1).log shard line,
        ⟨[((state.engines shard).reject symbol orderId reason).2], []⟩)
    | none =>
      (operation (state.engines shard)).map fun result =>
        ((state.log shard line).setEngine shard result.1, result.2)

theorem dispatch_alone (state : ShardedMatchingEngine shardCount) (shard : Fin shardCount) (own : Fin 1)
    (number : Option Int64) (symbol : Bytes) (orderId : Int64) (refused : RiskLimits → Option (Bytes × Json))
    (line : Json) (operation : MatchingEngine → Except Fault (MatchingEngine × Outcome)) :
    dispatch (alone state shard) own number symbol orderId refused line operation =
      (dispatch state shard number symbol orderId refused line operation).map fun result =>
        (alone result.1 shard, result.2) := by
  unfold dispatch
  rw [validate_alone]
  generalize state.validateIngress shard number symbol orderId = checked
  obtain ⟨passed, rejection⟩ := checked
  have engine : (alone passed shard).engines own = passed.engines shard := rfl
  have limits : (alone passed shard).limits = passed.limits := rfl
  cases rejection with
  | some rejected => rfl
  | none =>
    simp only [engine, limits]
    cases refused passed.limits with
    | some refusal => simp only [Except.map, alone_log own, alone_setEngine own]
    | none =>
      cases operation (passed.engines shard) with
      | error fault => rfl
      | ok result => simp only [Except.map, alone_setEngine own, alone_log own]

theorem dispatch_other {own : Fin shardCount} (away : shard ≠ own) {number : Option Int64} {symbol : Bytes}
    {orderId : Int64} {refused : RiskLimits → Option (Bytes × Json)} {line : Json}
    {operation : MatchingEngine → Except Fault (MatchingEngine × Outcome)} {outcome : Outcome}
    (ran : dispatch state own number symbol orderId refused line operation = .ok (next, outcome)) :
    alone next shard = alone state shard := by
  have kept : alone (state.validateIngress own number symbol orderId).1 shard = alone state shard :=
    validate_other away number symbol orderId
  unfold dispatch at ran
  generalize state.validateIngress own number symbol orderId = checked at ran kept
  obtain ⟨passed, rejection⟩ := checked
  cases rejection with
  | some rejected =>
    cases ran
    exact kept
  | none =>
    simp only at ran kept
    cases refusal : refused passed.limits with
    | some refusal_ =>
      rw [refusal] at ran
      cases ran
      rw [alone_log_other away, alone_setEngine_other away, kept]
    | none =>
      rw [refusal] at ran
      cases called : operation (passed.engines own) with
      | error fault => simp [called, Except.map] at ran
      | ok result =>
        simp only [called, Except.map, Except.ok.injEq, Prod.mk.injEq] at ran
        rw [← ran.1, alone_setEngine_other away, alone_log_other away, kept]

variable [NeZero shardCount]

/-! ## One call -/

/-- A command as a call with or without an ingress number. -/
def callWith (number : Option Int64) : Command → Call
  | .add cmd => .add cmd number
  | .cancel cmd => .cancel cmd number
  | .replace cmd => .replace cmd number

theorem callSymbol_callWith (number : Option Int64) (command : Command) :
    callSymbol (callWith number command) = some command.symbol := by
  cases command <;> rfl

theorem call_cases (call : Call) : call = .snapshotAll ∨ ∃ number command, call = callWith number command := by
  cases call with
  | add cmd number => exact .inr ⟨number, .add cmd, rfl⟩
  | cancel cmd number => exact .inr ⟨number, .cancel cmd, rfl⟩
  | replace cmd number => exact .inr ⟨number, .replace cmd, rfl⟩
  | snapshotAll => exact .inl rfl

/-- Every command is dispatched to the shard of its symbol. -/
theorem apply_dispatches (command : Command) :
    ∃ orderId refused line operation, ∀ {shardCount : Nat} [NeZero shardCount] (number : Option Int64)
      (state : ShardedMatchingEngine shardCount), state.apply (callWith number command) =
        dispatch state (shardOf command.symbol) number command.symbol orderId refused line operation := by
  cases command with
  | add cmd =>
    refine ⟨cmd.orderId, fun limits => (checkAdd limits cmd).map fun reason => (reason, riskRecord cmd reason),
      record "add" (serializeAdd cmd), fun engine => engine.add cmd, fun number state => ?_⟩
    simp only [callWith, Command.symbol, ShardedMatchingEngine.apply, ShardedMatchingEngine.add, dispatch]
    generalize state.validateIngress (shardOf cmd.symbol) number cmd.symbol cmd.orderId = checked
    obtain ⟨passed, rejection⟩ := checked
    cases rejection with
    | some rejected => rfl
    | none =>
      simp only
      cases checkAdd passed.limits cmd with
      | some reason => rfl
      | none =>
        simp only [ShardedMatchingEngine.log, ShardedMatchingEngine.setWal, bind, Except.bind, Option.map_none]
        cases (passed.engines (shardOf cmd.symbol)).add cmd <;> rfl
  | cancel cmd =>
    refine ⟨cmd.orderId, fun _ => none, record "cancel" (serializeCancel cmd),
      fun engine => engine.apply (.cancel cmd), fun number state => ?_⟩
    simp only [callWith, Command.symbol, ShardedMatchingEngine.apply, ShardedMatchingEngine.cancel, dispatch]
    generalize state.validateIngress (shardOf cmd.symbol) number cmd.symbol cmd.orderId = checked
    obtain ⟨passed, rejection⟩ := checked
    cases rejection with
    | some rejected => rfl
    | none =>
      simp only [MatchingEngine.apply, ShardedMatchingEngine.log, ShardedMatchingEngine.setWal, bind, Except.bind]
      cases (passed.engines (shardOf cmd.symbol)).cancel cmd <;> rfl
  | replace cmd =>
    refine ⟨cmd.orderId, fun _ => none, record "replace" (serializeReplace cmd),
      fun engine => engine.replace cmd, fun number state => ?_⟩
    simp only [callWith, Command.symbol, ShardedMatchingEngine.apply, ShardedMatchingEngine.replace, dispatch]
    generalize state.validateIngress (shardOf cmd.symbol) number cmd.symbol cmd.orderId = checked
    obtain ⟨passed, rejection⟩ := checked
    cases rejection with
    | some rejected => rfl
    | none =>
      simp only [ShardedMatchingEngine.log, ShardedMatchingEngine.setWal, bind, Except.bind]
      cases (passed.engines (shardOf cmd.symbol)).replace cmd <;> rfl

/-- The calls that reach a shard: those for its symbols, and every snapshot. -/
def concerns (shard : Fin shardCount) (call : Call) : Bool :=
  (callSymbol call).all fun symbol => decide (shardOf symbol = shard)

/-- Each shard answers the calls that concern it as an engine of one shard
does, and no other call changes it. -/
theorem shards_decompose : Decomposes (@ShardedMatchingEngine.apply shardCount _)
    (@ShardedMatchingEngine.apply 1 _) alone concerns where
  concerned {state call next outcome} shard ran here := by
    rcases call_cases call with rfl | ⟨number, command, rfl⟩
    · cases ran
      rfl
    · simp only [concerns, callSymbol_callWith, Option.all_some, decide_eq_true_eq] at here
      obtain ⟨orderId, refused, line, operation, shape⟩ := apply_dispatches command
      rw [shape] at ran ⊢
      rw [dispatch_alone, ← here, ran]
      rfl
  spared {state call next outcome} shard ran away := by
    rcases call_cases call with rfl | ⟨number, command, rfl⟩
    · simp [concerns, callSymbol] at away
    · simp only [concerns, callSymbol_callWith, Option.all_some, decide_eq_false_iff_not] at away
      obtain ⟨orderId, refused, line, operation, shape⟩ := apply_dispatches command
      rw [shape] at ran
      exact dispatch_other (Ne.symm away) ran

/-! ## Runs -/

/-- Every run of every sharded engine, on any files it finds, succeeds, and what
it makes of each shard and answers for it is what an engine of one shard on the
shard's files makes of the calls that concern it: the same engine, the same
bytes in the log and the snapshot, the same ingress counter, the same outcomes. -/
theorem shards_run_alone (limits : RiskLimits) (files : Fin shardCount → Files) (calls : List Call) :
    ∃ final outcomes, run ShardedMatchingEngine.apply (.create limits files) calls = .ok (final, outcomes) ∧
      ∀ shard, run ShardedMatchingEngine.apply (.create limits fun _ : Fin 1 => files shard)
        (calls.filter (concerns shard)) = .ok (alone final shard, answersTo (concerns shard) calls outcomes) := by
  have sound : ∀ shard, WellFormed ((ShardedMatchingEngine.create limits files).engines shard) :=
    fun _ => wellFormed_empty
  obtain ⟨final, outcomes, ran, -⟩ := Runs.run_invariant (fun _ _ => True)
    (fun state : ShardedMatchingEngine shardCount => ∀ shard, WellFormed (state.engines shard))
    (fun state call sound _ => apply_sound sound call) sound (Runs.meets_of_forall (fun _ _ => trivial) calls)
  exact ⟨final, outcomes, ran, fun shard => Runs.run_part shards_decompose shard ran⟩

/-- Two symbols of different shards, a stale ingress number and a snapshot. -/
def mixedCalls : List Call :=
  [.add { symbol := ascii "S", orderId := 1, participantId := ascii "A", priceTicks := 100, quantity := 5 } (some 4),
    .add { symbol := ascii "T", orderId := 2, participantId := ascii "A", side := .sell, priceTicks := 7,
           quantity := 3 } none,
    .snapshotAll, .cancel { symbol := ascii "S", orderId := 1 } (some 3),
    .cancel { symbol := ascii "T", orderId := 2 } none]

theorem two_shards_run_alone :
    ∃ final outcomes,
      run ShardedMatchingEngine.apply (.create {} fun _ : Fin 2 => {}) mixedCalls = .ok (final, outcomes) ∧
      ∀ shard, run ShardedMatchingEngine.apply (.create {} fun _ : Fin 1 => {})
        (mixedCalls.filter (concerns shard)) =
          .ok (alone final shard, answersTo (concerns shard) mixedCalls outcomes) :=
  shards_run_alone {} (fun _ => {}) mixedCalls

end Exchange.ShardComponents
