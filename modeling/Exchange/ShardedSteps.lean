import Exchange.EngineInvariant
import Exchange.Sharded

/-! What a call does to the sharded engine, shard by shard. Every call of a
sound engine succeeds; it changes at most one shard, unless it takes snapshots,
and it changes that shard in one of five ways. -/
namespace Exchange.ShardedSteps
open EngineInvariant
open ShardedMatchingEngine (shardOf)

/-- The record of a command. -/
def commandRecord : Command → Json
  | .add cmd => record "add" (serializeAdd cmd)
  | .cancel cmd => record "cancel" (serializeCancel cmd)
  | .replace cmd => record "replace" (serializeReplace cmd)

/-- What one call can do to one shard: nothing, a rejection that is not logged
or one that is, an admitted command that is logged and applied, a snapshot. -/
inductive Change (admitted : Command → Prop) (wal : WalStore) (live : MatchingEngine) :
    WalStore → MatchingEngine → Prop where
  | untouched : Change admitted wal live wal live
  | rejected (symbol : Bytes) (orderId : Int64) (reason : Bytes) :
      Change admitted wal live wal (live.reject symbol orderId reason).1
  | riskRejected (cmd : AddOrder) (reason : Bytes) :
      Change admitted wal live (wal.append (riskRecord cmd reason))
        (live.reject cmd.symbol cmd.orderId reason).1
  | command (issued : Command) (next : MatchingEngine) (outcome : Outcome) (passed : admitted issued)
      (ran : live.apply issued = .ok (next, outcome)) :
      Change admitted wal live (wal.append (commandRecord issued)) next
  | snapshot : Change admitted wal live (wal.saveSnapshot live.snapshot) live

variable {shardCount : Nat} {state : ShardedMatchingEngine shardCount}

/-- The state with one shard's store and engine exchanged. -/
def withShard (state : ShardedMatchingEngine shardCount) (own : Fin shardCount) (wal : WalStore)
    (engine : MatchingEngine) : ShardedMatchingEngine shardCount :=
  (state.setWal own wal).setEngine own engine

@[simp] theorem withShard_engines (state : ShardedMatchingEngine shardCount) (own shard : Fin shardCount)
    (wal : WalStore) (engine : MatchingEngine) :
    (withShard state own wal engine).engines shard = if shard = own then engine else state.engines shard := rfl

@[simp] theorem withShard_wals (state : ShardedMatchingEngine shardCount) (own shard : Fin shardCount)
    (wal : WalStore) (engine : MatchingEngine) :
    (withShard state own wal engine).wals shard = if shard = own then wal else state.wals shard := rfl

@[simp] theorem withShard_limits (state : ShardedMatchingEngine shardCount) (own : Fin shardCount)
    (wal : WalStore) (engine : MatchingEngine) : (withShard state own wal engine).limits = state.limits := rfl

/-- A call that touches one shard leaves the others as they are. -/
theorem changes_withShard (state : ShardedMatchingEngine shardCount)
    {admitted : Fin shardCount → Command → Prop} {own : Fin shardCount} {wal : WalStore}
    {engine : MatchingEngine} (change : Change (admitted own) (state.wals own) (state.engines own) wal engine)
    (shard : Fin shardCount) :
    Change (admitted shard) (state.wals shard) (state.engines shard)
      ((withShard state own wal engine).wals shard) ((withShard state own wal engine).engines shard) := by
  rw [withShard_wals, withShard_engines]
  by_cases here : shard = own
  · subst here
    simpa using change
  · simp only [if_neg here]
    exact .untouched

theorem setEngine_withShard (state : ShardedMatchingEngine shardCount) (own : Fin shardCount)
    (engine : MatchingEngine) : state.setEngine own engine = withShard state own (state.wals own) engine := by
  have same : (fun other => if other = own then state.wals own else state.wals other) = state.wals := by
    funext other
    by_cases here : other = own <;> simp [here]
  simp only [withShard, ShardedMatchingEngine.setWal, ShardedMatchingEngine.setEngine, same]

variable [NeZero shardCount]

/-- Past the sequence check only the counters have changed. -/
theorem validateIngress_cases (state : ShardedMatchingEngine shardCount) (symbol : Bytes)
    (number : Option Int64) (orderId : Int64) :
    (state.inOrder symbol number = false ∧ state.validateIngress (shardOf symbol) number symbol orderId =
      (state.setEngine (shardOf symbol)
          ((state.engines (shardOf symbol)).reject symbol orderId (ascii "OUT_OF_ORDER_INGRESS")).1,
        some ((state.engines (shardOf symbol)).reject symbol orderId (ascii "OUT_OF_ORDER_INGRESS")).2)) ∨
    (state.inOrder symbol number = true ∧ ∃ counters,
      state.validateIngress (shardOf symbol) number symbol orderId =
        ({ state with lastIngressSequence := counters }, none)) := by
  cases number with
  | none => exact .inr ⟨rfl, _, rfl⟩
  | some number =>
    by_cases stale : number ≤ state.lastIngressSequence (shardOf symbol)
    · refine .inl ⟨by simp [ShardedMatchingEngine.inOrder, stale], ?_⟩
      rw [ShardedMatchingEngine.validateIngress, if_pos stale]
    · exact .inr ⟨by simp [ShardedMatchingEngine.inOrder, stale], _, if_neg stale⟩

/-- The symbol a call names. -/
def callSymbol : ShardedMatchingEngine.Call → Option Bytes
  | .add cmd _ => some cmd.symbol
  | .cancel cmd _ => some cmd.symbol
  | .replace cmd _ => some cmd.symbol
  | .snapshotAll => none

/-- What one call does to the whole engine, and what it returns. -/
inductive Effect (state : ShardedMatchingEngine shardCount) (call : ShardedMatchingEngine.Call) :
    ShardedMatchingEngine shardCount → Outcome → Prop where
  | rejected (symbol : Bytes) (orderId : Int64) (reason : Bytes) (named : callSymbol call = some symbol)
      (refused : state.accepted call = none) :
      Effect state call (withShard state (shardOf symbol) (state.wals (shardOf symbol))
          ((state.engines (shardOf symbol)).reject symbol orderId reason).1)
        ⟨[((state.engines (shardOf symbol)).reject symbol orderId reason).2], []⟩
  | riskRejected (cmd : AddOrder) (reason : Bytes) (counters : Fin shardCount → Int64)
      (named : callSymbol call = some cmd.symbol) (refused : state.accepted call = none) :
      Effect state call (withShard { state with lastIngressSequence := counters } (shardOf cmd.symbol)
          ((state.wals (shardOf cmd.symbol)).append (riskRecord cmd reason))
          ((state.engines (shardOf cmd.symbol)).reject cmd.symbol cmd.orderId reason).1)
        ⟨[((state.engines (shardOf cmd.symbol)).reject cmd.symbol cmd.orderId reason).2], []⟩
  | command (issued : Command) (counters : Fin shardCount → Int64) (engine : MatchingEngine)
      (outcome : Outcome) (named : callSymbol call = some issued.symbol)
      (passed : state.accepted call = some issued)
      (ran : (state.engines (shardOf issued.symbol)).apply issued = .ok (engine, outcome)) :
      Effect state call (withShard { state with lastIngressSequence := counters } (shardOf issued.symbol)
          ((state.wals (shardOf issued.symbol)).append (commandRecord issued)) engine) outcome
  | snapshot (taken : call = .snapshotAll) : Effect state call state.snapshotAll ⟨[], []⟩

/-- Every call succeeds and has one of the listed effects. -/
theorem apply_effect (sound : ∀ shard, WellFormed (state.engines shard))
    (call : ShardedMatchingEngine.Call) :
    ∃ next outcome, state.apply call = .ok (next, outcome) ∧ Effect state call next outcome := by
  cases call with
  | add cmd number =>
    rw [ShardedMatchingEngine.apply, ShardedMatchingEngine.add]
    rcases validateIngress_cases state cmd.symbol number cmd.orderId with
      ⟨stale, refused⟩ | ⟨inOrder, counters, passed⟩
    · rw [refused, setEngine_withShard]
      exact ⟨_, _, rfl, .rejected cmd.symbol cmd.orderId _ rfl (by simp [ShardedMatchingEngine.accepted, stale])⟩
    · rw [passed]
      cases checked : checkAdd state.limits cmd with
      | some reason =>
        simp only [checked]
        exact ⟨_, _, rfl, .riskRejected cmd reason counters rfl
          (by simp [ShardedMatchingEngine.accepted, checked])⟩
      | none =>
        obtain ⟨engine, outcome, ran, -⟩ := apply_wellFormed (sound (shardOf cmd.symbol)) (.add cmd)
        have applied := ran
        rw [MatchingEngine.apply] at ran
        simp only [checked, ShardedMatchingEngine.log, ShardedMatchingEngine.setWal, ran, bind, Except.bind]
        exact ⟨_, _, rfl, .command (.add cmd) counters engine outcome rfl
          (by simp [ShardedMatchingEngine.accepted, inOrder, checked]) applied⟩
  | cancel cmd number =>
    rw [ShardedMatchingEngine.apply, ShardedMatchingEngine.cancel]
    rcases validateIngress_cases state cmd.symbol number cmd.orderId with
      ⟨stale, refused⟩ | ⟨inOrder, counters, passed⟩
    · rw [refused, setEngine_withShard]
      exact ⟨_, _, rfl, .rejected cmd.symbol cmd.orderId _ rfl (by simp [ShardedMatchingEngine.accepted, stale])⟩
    · rw [passed]
      obtain ⟨engine, outcome, ran, -⟩ := apply_wellFormed (sound (shardOf cmd.symbol)) (.cancel cmd)
      have applied := ran
      rw [MatchingEngine.apply] at ran
      cases cancelled : (state.engines (shardOf cmd.symbol)).cancel cmd with
      | error fault => simp [cancelled, bind, Except.bind] at ran
      | ok result =>
        simp only [cancelled, bind, Except.bind, Except.ok.injEq, Prod.mk.injEq] at ran
        obtain ⟨rfl, rfl⟩ := ran
        simp only [ShardedMatchingEngine.log, ShardedMatchingEngine.setWal, cancelled, bind, Except.bind]
        exact ⟨_, _, rfl, .command (.cancel cmd) counters result.1 _ rfl
          (by simp [ShardedMatchingEngine.accepted, inOrder]) applied⟩
  | replace cmd number =>
    rw [ShardedMatchingEngine.apply, ShardedMatchingEngine.replace]
    rcases validateIngress_cases state cmd.symbol number cmd.orderId with
      ⟨stale, refused⟩ | ⟨inOrder, counters, passed⟩
    · rw [refused, setEngine_withShard]
      exact ⟨_, _, rfl, .rejected cmd.symbol cmd.orderId _ rfl (by simp [ShardedMatchingEngine.accepted, stale])⟩
    · rw [passed]
      obtain ⟨engine, outcome, ran, -⟩ := apply_wellFormed (sound (shardOf cmd.symbol)) (.replace cmd)
      have applied := ran
      rw [MatchingEngine.apply] at ran
      simp only [ShardedMatchingEngine.log, ShardedMatchingEngine.setWal, ran, bind, Except.bind]
      exact ⟨_, _, rfl, .command (.replace cmd) counters engine outcome rfl
        (by simp [ShardedMatchingEngine.accepted, inOrder]) applied⟩
  | snapshotAll => exact ⟨_, _, rfl, .snapshot rfl⟩

theorem effect_limits {call : ShardedMatchingEngine.Call} {next : ShardedMatchingEngine shardCount}
    {outcome : Outcome} (effect : Effect state call next outcome) : next.limits = state.limits := by
  cases effect <;> rfl

/-- Only a checked add is accepted. -/
theorem accepted_checked {call : ShardedMatchingEngine.Call} {cmd : AddOrder}
    (passed : state.accepted call = some (.add cmd)) : checkAdd state.limits cmd = none := by
  cases call with
  | add other number =>
    simp only [ShardedMatchingEngine.accepted, Option.ite_none_right_eq_some, Option.some.injEq,
      Command.add.injEq] at passed
    rw [← passed.2]
    exact passed.1.2
  | cancel other number => simp [ShardedMatchingEngine.accepted] at passed
  | replace other number => simp [ShardedMatchingEngine.accepted] at passed
  | snapshotAll => simp [ShardedMatchingEngine.accepted] at passed

/-- The call gets this command through to this shard. -/
def Admits (state : ShardedMatchingEngine shardCount) (call : ShardedMatchingEngine.Call)
    (shard : Fin shardCount) (issued : Command) : Prop :=
  issued ∈ state.accepted call ∧ shardOf issued.symbol = shard

/-- Every call succeeds and changes each shard in one of the listed ways. -/
theorem apply_changes (sound : ∀ shard, WellFormed (state.engines shard))
    (call : ShardedMatchingEngine.Call) :
    ∃ next outcome, state.apply call = .ok (next, outcome) ∧ ∀ shard,
      Change (Admits state call shard) (state.wals shard) (state.engines shard)
        (next.wals shard) (next.engines shard) := by
  obtain ⟨next, outcome, ran, effect⟩ := apply_effect sound call
  refine ⟨next, outcome, ran, fun shard => ?_⟩
  cases effect with
  | rejected symbol orderId reason => exact changes_withShard state (.rejected symbol orderId reason) shard
  | riskRejected cmd reason counters =>
    exact changes_withShard { state with lastIngressSequence := counters } (.riskRejected cmd reason) shard
  | command issued counters engine outcome _ passed ran =>
    exact changes_withShard { state with lastIngressSequence := counters }
      (.command issued engine outcome ⟨passed, rfl⟩ ran) shard
  | snapshot => exact .snapshot

/-- A changed shard is sound if it was. -/
theorem change_wellFormed {admitted : Command → Prop} {wal wal' : WalStore} {live live' : MatchingEngine}
    (change : Change admitted wal live wal' live') (wf : WellFormed live) : WellFormed live' := by
  cases change with
  | untouched => exact wf
  | snapshot => exact wf
  | rejected symbol orderId reason => exact wellFormed_congr wf (fun _ _ => rfl) rfl rfl
  | riskRejected cmd reason => exact wellFormed_congr wf (fun _ _ => rfl) rfl rfl
  | command issued _ outcome _ ran => exact wellFormed_of_apply wf ran

/-- Every call of a sound engine succeeds and leaves it sound. -/
theorem apply_sound (sound : ∀ shard, WellFormed (state.engines shard))
    (call : ShardedMatchingEngine.Call) :
    ∃ next outcome, state.apply call = .ok (next, outcome) ∧ ∀ shard, WellFormed (next.engines shard) := by
  obtain ⟨next, outcome, ran, changes⟩ := apply_changes sound call
  exact ⟨next, outcome, ran, fun shard => change_wellFormed (changes shard) (sound shard)⟩

end Exchange.ShardedSteps
