import Exchange.IngressReplay
import Exchange.Restart
import Exchange.SnapshotValidation

/-! Ingress numbers over a restart. No file holds them: not the log, not the
snapshot, and the constructor starts every shard at zero. The engine that comes
back knows the orders and has forgotten the numbers, so a command that is sent
again is a new command, once. -/
namespace Exchange.RestartReplay
open EngineInvariant ShardedSteps ShardReplay Runs IngressReplay
open ShardedMatchingEngine (shardOf Call)

variable {shardCount : Nat} {state next : ShardedMatchingEngine shardCount} {call : Call}

/-- The same command without its number. -/
def unnumberedCall : Call → Call
  | .add cmd _ => .add cmd none
  | .cancel cmd _ => .cancel cmd none
  | .replace cmd _ => .replace cmd none
  | .snapshotAll => .snapshotAll

/-! ## Nothing but the check answers with its reason -/

theorem not_outOfOrder {outcome : Outcome} {first : ExecEvent} {rest : List ExecEvent}
    (events : outcome.events = first :: rest)
    (other : first.type ≠ .rejected ∨ payloadStr first.payload .reason ≠ some (ascii "OUT_OF_ORDER_INGRESS")) :
    ¬ OutOfOrder outcome := by
  rintro ⟨event, rfl, kind, reason⟩
  obtain ⟨rfl, -⟩ := List.cons.inj events
  exact other.elim (fun different => different kind) (fun different => different reason)

/-- Any other reason is another reason. -/
theorem rejection_reason (orderId : Int64) {reason : Bytes} (different : reason ≠ ascii "OUT_OF_ORDER_INGRESS") :
    payloadStr [(.orderId, .int orderId), (.reason, .str reason)] .reason ≠ some (ascii "OUT_OF_ORDER_INGRESS") := by
  have value : payloadStr [(.orderId, .int orderId), (.reason, .str reason)] .reason = some reason := rfl
  rw [value]
  exact fun same => different (Option.some.inj same)

theorem apply_not_outOfOrder {engine engine' : MatchingEngine} {command : Command} {outcome : Outcome}
    (wf : WellFormed engine) (ran : engine.apply command = .ok (engine', outcome)) : ¬ OutOfOrder outcome := by
  have rejected : ∀ (orderId : Int64), payloadStr [(.orderId, .int orderId), (.reason, .str (ascii "UNKNOWN_ORDER"))]
      .reason ≠ some (ascii "OUT_OF_ORDER_INGRESS") := fun orderId => rejection_reason orderId (by decide)
  cases applied_of_ran wf ran with
  | add cmd ran =>
    cases added_of_ran wf ran with
    | refused refuses => exact not_outOfOrder rfl (Or.inr (rejection_reason cmd.orderId (by decide)))
    | accepted accepts mid matched => exact not_outOfOrder rfl (Or.inl (by simp))
  | cancelUnknown cmd missing => exact not_outOfOrder rfl (Or.inr (rejected cmd.orderId))
  | cancelKnown cmd loc order entry taken => exact not_outOfOrder rfl (Or.inl (by simp))
  | replaceUnknown cmd missing => exact not_outOfOrder rfl (Or.inr (rejected cmd.orderId))
  | replaceKnown cmd loc order mid added entry taken ranAdd => exact not_outOfOrder rfl (Or.inl (by simp))

theorem checkAdd_reason {limits : RiskLimits} {cmd : AddOrder} {reason : Bytes}
    (refused : checkAdd limits cmd = some reason) : reason ≠ ascii "OUT_OF_ORDER_INGRESS" := by
  unfold checkAdd at refused
  split at refused
  · cases refused
    decide
  · split at refused
    · cases refused
      decide
    · split at refused
      · split at refused
        · cases refused
          decide
        · split at refused
          · cases refused
            decide
          · cases refused
      · cases refused

/-! ## The restart -/

/-- After a snapshot and a restart every shard is sound and has no number. -/
theorem restarts (sound : ∀ shard, WellFormed (state.engines shard)) (limits : RiskLimits) :
    ∃ restarted, (ShardedMatchingEngine.create limits state.snapshotAll.shutdown).restoreFromSnapshots =
        .ok restarted ∧
      (∀ shard, restarted.lastIngressSequence shard = 0) ∧ ∀ shard, WellFormed (restarted.engines shard) := by
  choose bases loaded basesWf using fun shard =>
    SnapshotValidation.listing_loads (sound shard) (state.engines shard).isSnapshot_snapshot {}
  have loads : ∀ shard, Loads (((ShardedMatchingEngine.create limits state.snapshotAll.shutdown).wals
      shard).files.snapshot) (bases shard) := by
    intro shard
    change Loads (((state.wals shard).saveSnapshot (state.engines shard).snapshot).close.files.snapshot) (bases shard)
    rw [Restart.close_snapshot]
    exact .document (snapshot_doubleFree (state.engines shard)) (loaded shard)
  obtain ⟨restarted, ran, numbers, engines⟩ := @Restart.restore_loop shardCount
    (ShardedMatchingEngine.create limits state.snapshotAll.shutdown) bases (List.finRange shardCount)
    (List.nodup_finRange shardCount) (fun shard _ => loads shard) (fun _ _ => rfl)
  refine ⟨restarted, ran, fun shard => congrFun numbers shard, fun shard => ?_⟩
  rw [engines shard, if_pos (List.mem_finRange shard)]
  exact basesWf shard

/-! ## A number that passes -/

variable [NeZero shardCount]

/-- A call that passes the check is handled like the same call without a
number, but for the number it leaves behind. -/
theorem apply_passed (sound : ∀ shard, WellFormed (state.engines shard)) (passed : ingressCheck state call = none) :
    ∃ next outcome, state.apply call = .ok (next, outcome) ∧
      state.apply (unnumberedCall call) =
        .ok ({ next with lastIngressSequence := state.lastIngressSequence }, outcome) ∧
      ¬ OutOfOrder outcome := by
  cases call with
  | add cmd number =>
    rcases validateIngress_cases state cmd.symbol number cmd.orderId with
      ⟨-, refused⟩ | ⟨-, counters, checked⟩
    · simp [ingressCheck, ingressOf, refused] at passed
    · rw [ShardedMatchingEngine.apply, ShardedMatchingEngine.add, checked, unnumberedCall,
        ShardedMatchingEngine.apply, ShardedMatchingEngine.add, ShardedMatchingEngine.validateIngress]
      cases risk : checkAdd state.limits cmd with
      | some reason =>
        simp only [risk]
        exact ⟨_, _, rfl, rfl, not_outOfOrder rfl (Or.inr (rejection_reason cmd.orderId (checkAdd_reason risk)))⟩
      | none =>
        obtain ⟨engine, outcome, ran, -⟩ := apply_wellFormed (sound (shardOf cmd.symbol)) (.add cmd)
        have other := apply_not_outOfOrder (sound _) ran
        rw [MatchingEngine.apply] at ran
        simp only [risk, ShardedMatchingEngine.log, ShardedMatchingEngine.setWal, ran, bind, Except.bind]
        exact ⟨_, _, rfl, rfl, other⟩
  | cancel cmd number =>
    rcases validateIngress_cases state cmd.symbol number cmd.orderId with
      ⟨-, refused⟩ | ⟨-, counters, checked⟩
    · simp [ingressCheck, ingressOf, refused] at passed
    · rw [ShardedMatchingEngine.apply, ShardedMatchingEngine.cancel, checked, unnumberedCall,
        ShardedMatchingEngine.apply, ShardedMatchingEngine.cancel, ShardedMatchingEngine.validateIngress]
      obtain ⟨engine, outcome, ran, -⟩ := apply_wellFormed (sound (shardOf cmd.symbol)) (.cancel cmd)
      have other := apply_not_outOfOrder (sound _) ran
      obtain ⟨⟨engine', events⟩, cancelled, same⟩ := bind_ok_iff.mp ran
      cases same
      simp only [ShardedMatchingEngine.log, ShardedMatchingEngine.setWal, cancelled, bind, Except.bind]
      exact ⟨_, _, rfl, rfl, other⟩
  | replace cmd number =>
    rcases validateIngress_cases state cmd.symbol number cmd.orderId with
      ⟨-, refused⟩ | ⟨-, counters, checked⟩
    · simp [ingressCheck, ingressOf, refused] at passed
    · rw [ShardedMatchingEngine.apply, ShardedMatchingEngine.replace, checked, unnumberedCall,
        ShardedMatchingEngine.apply, ShardedMatchingEngine.replace, ShardedMatchingEngine.validateIngress]
      obtain ⟨engine, outcome, ran, -⟩ := apply_wellFormed (sound (shardOf cmd.symbol)) (.replace cmd)
      have other := apply_not_outOfOrder (sound _) ran
      rw [MatchingEngine.apply] at ran
      simp only [ShardedMatchingEngine.log, ShardedMatchingEngine.setWal, ran, bind, Except.bind]
      exact ⟨_, _, rfl, rfl, other⟩
  | snapshotAll =>
    refine ⟨_, _, rfl, rfl, ?_⟩
    rintro ⟨event, same, -⟩
    cases same

/-- The engine takes the call as a new one, and only once: from then on, after
whatever calls, it refuses it and nothing changes. -/
structure TakesOnce (state : ShardedMatchingEngine shardCount) (call : Call) : Prop where
  first : ∃ next outcome, state.apply call = .ok (next, outcome) ∧
    state.apply (unnumberedCall call) =
      .ok ({ next with lastIngressSequence := state.lastIngressSequence }, outcome) ∧
    ¬ OutOfOrder outcome
  again : ∀ later, ∃ final outcomes last outcome,
    run ShardedMatchingEngine.apply state (call :: later) = .ok (final, outcomes) ∧
      final.apply call = .ok (last, outcome) ∧ OutOfOrder outcome ∧ Untouched final last

theorem takesOnce {symbol : Bytes} {number : Int64} (sound : ∀ shard, WellFormed (state.engines shard))
    (named : sequenced call = some (symbol, number)) (fresh : state.lastIngressSequence (shardOf symbol) < number) :
    TakesOnce state call where
  first := apply_passed sound ((ingressCheck_none_iff state named).mpr fresh)
  again later := by
    obtain ⟨final, outcomes, ran, -⟩ := run_invariant (fun _ _ => True)
      (fun state : ShardedMatchingEngine shardCount => ∀ shard, WellFormed (state.engines shard))
      (fun _ call sound _ => apply_sound sound call) sound (meets_of_forall (fun _ _ => trivial) (call :: later))
    have delivered := (run_delivered ran).2 call (by simp) symbol number named
    obtain ⟨rejected, refused⟩ : ∃ rejected, ingressCheck final call = some rejected := by
      refine Option.ne_none_iff_exists'.mp fun passes => ?_
      exact absurd ((ingressCheck_none_iff final named).mp passes) (not_lt.mpr delivered)
    obtain ⟨last, stepped, same, answered⟩ := apply_refused refused
    exact ⟨final, outcomes, last, _, ran, stepped, answered, same⟩

/-- Numbers protect for one lifetime. Whatever was called before and after it,
a sequenced command that passed the check before the snapshot and the restart
passes it again afterwards, once. -/
theorem restart_forgets_numbers (limits limits' : RiskLimits) (files : Fin shardCount → Files)
    {before : List Call} {mid : ShardedMatchingEngine shardCount} {outcomes : List Outcome} {symbol : Bytes}
    {number : Int64} (ran : run ShardedMatchingEngine.apply (ShardedMatchingEngine.create limits files) before =
      .ok (mid, outcomes))
    (named : sequenced call = some (symbol, number)) (passed : ingressCheck mid call = none) (after : List Call) :
    ∃ state outcomes restarted,
      run ShardedMatchingEngine.apply (ShardedMatchingEngine.create limits files) (before ++ call :: after) =
        .ok (state, outcomes) ∧
      (ShardedMatchingEngine.create limits' state.snapshotAll.shutdown).restoreFromSnapshots = .ok restarted ∧
      (∀ shard, restarted.lastIngressSequence shard = 0) ∧ TakesOnce restarted call := by
  have start : ∀ shard, WellFormed ((ShardedMatchingEngine.create limits files).engines shard) :=
    fun _ => wellFormed_empty
  obtain ⟨state, outcomes, whole, sound⟩ := run_invariant (fun _ _ => True)
    (fun state : ShardedMatchingEngine shardCount => ∀ shard, WellFormed (state.engines shard))
    (fun _ call sound _ => apply_sound sound call) start
    (meets_of_forall (fun _ _ => trivial) (before ++ call :: after))
  obtain ⟨restarted, restored, zero, restartedSound⟩ := restarts sound limits'
  refine ⟨state, outcomes, restarted, whole, restored, zero, takesOnce restartedSound named ?_⟩
  -- The number was above a counter that started at zero.
  have above := (ingressCheck_none_iff mid named).mp passed
  rw [zero]
  exact lt_of_le_of_lt ((run_delivered ran).1 (shardOf symbol)) above

/-- One numbered order. -/
def numberedAdd : Call :=
  .add { symbol := ascii "S", orderId := 1, participantId := ascii "A", priceTicks := 100, quantity := 5 } (some 1)

theorem numbered_add_is_taken_again :
    ∃ state outcomes restarted,
      run ShardedMatchingEngine.apply (ShardedMatchingEngine.create {} (fun _ : Fin 2 => {})) [numberedAdd] =
        .ok (state, outcomes) ∧
      (ShardedMatchingEngine.create {} state.snapshotAll.shutdown).restoreFromSnapshots = .ok restarted ∧
      (∀ shard, restarted.lastIngressSequence shard = 0) ∧ TakesOnce restarted numberedAdd :=
  restart_forgets_numbers {} {} (fun _ => {}) (show run ShardedMatchingEngine.apply _ [] = .ok (_, []) from rfl)
    rfl (by decide) []

/-- The order is not refused when it is sent again after the restart. -/
theorem restart_takes_the_order_again :
    ¬ ∀ (calls : List Call) (state restarted : ShardedMatchingEngine 1) (outcomes : List Outcome),
      (∀ call ∈ calls, (sequenced call).isSome) →
      run ShardedMatchingEngine.apply (ShardedMatchingEngine.create {} (fun _ => {})) calls = .ok (state, outcomes) →
      (ShardedMatchingEngine.create {} state.snapshotAll.shutdown).restoreFromSnapshots = .ok restarted →
      ∀ before call after (mid : ShardedMatchingEngine 1) outcomes', calls = before ++ call :: after →
        run ShardedMatchingEngine.apply (ShardedMatchingEngine.create {} (fun _ => {})) before =
          .ok (mid, outcomes') →
        mid.accepted call ≠ none →
        ∃ next outcome, restarted.apply call = .ok (next, outcome) ∧ OutOfOrder outcome ∧
          Untouched restarted next := by
  intro always
  have start : ∀ shard, WellFormed ((ShardedMatchingEngine.create {} (fun _ : Fin 1 => {})).engines shard) :=
    fun _ => wellFormed_empty
  obtain ⟨state, outcome, stepped, sound⟩ := apply_sound start numberedAdd
  obtain ⟨restarted, restored, zero, restartedSound⟩ := restarts sound {}
  have ran : run ShardedMatchingEngine.apply (ShardedMatchingEngine.create {} (fun _ : Fin 1 => {})) [numberedAdd] =
      .ok (state, [outcome]) := by
    rw [run_cons stepped]
    rfl
  obtain ⟨next, answer, answered, refused, -⟩ :=
    always [numberedAdd] state restarted [outcome] (by decide) ran restored
    [] numberedAdd [] _ [] rfl rfl (by decide)
  have taken := takesOnce restartedSound (show sequenced numberedAdd = some (ascii "S", 1) from rfl)
    (by rw [zero]; decide)
  obtain ⟨next', answer', answered', -, accepted⟩ := taken.first
  rw [answered] at answered'
  cases answered'
  exact accepted refused

end Exchange.RestartReplay
