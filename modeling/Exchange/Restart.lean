import Exchange.ShardReplay

/-! A restart. Closing a store leaves the whole log in the directory, but
`restore_from_snapshots` loads each shard's snapshot and does not read its log:
the new engine stands where the last snapshot was taken. -/
namespace Exchange.Restart
open EngineInvariant OrderIndex WalLog ShardedSteps ShardReplay
open ShardedMatchingEngine (restoreShard shardOf)

/-- The calls up to the last snapshot; none if there was no snapshot. -/
def snapshotPoint (calls : List ShardedMatchingEngine.Call) : List ShardedMatchingEngine.Call :=
  calls.rdropWhile (· ≠ .snapshotAll)

theorem snapshotPoint_snapshot (calls : List ShardedMatchingEngine.Call) :
    snapshotPoint (calls ++ [.snapshotAll]) = calls ++ [.snapshotAll] :=
  List.rdropWhile_concat_neg _ _ _ (by simp)

theorem snapshotPoint_other {call : ShardedMatchingEngine.Call} (other : call ≠ .snapshotAll)
    (calls : List ShardedMatchingEngine.Call) : snapshotPoint (calls ++ [call]) = snapshotPoint calls :=
  List.rdropWhile_concat_pos _ _ _ (by simpa using other)

/-! ## Loading the snapshots -/

variable {shardCount : Nat} {state : ShardedMatchingEngine shardCount} {wal : WalStore}

theorem restoreShard_loads {shard : Fin shardCount} {base : MatchingEngine}
    (loads : Loads (state.wals shard).files.snapshot base) (new : state.engines shard = {}) :
    restoreShard state shard = .ok (state.setEngine shard base) := by
  unfold restoreShard
  rcases loads_cases loads with ⟨read, rfl⟩ | ⟨snap, read, loaded⟩
  · have same : state.setEngine shard {} = state := by
      rw [← new, ShardedMatchingEngine.setEngine]
      congr 1
      funext other
      split
      · rename_i here
        rw [here]
      · rfl
    rw [read, same]
    rfl
  · simp only [read, new, loaded, bind, Except.bind, Except.mapError]

/-- The loop, on the shards still to come. -/
theorem restore_loop (bases : Fin shardCount → MatchingEngine) (shards : List (Fin shardCount))
    (once : shards.Nodup) (loads : ∀ shard ∈ shards, Loads (state.wals shard).files.snapshot (bases shard))
    (new : ∀ shard ∈ shards, state.engines shard = {}) :
    ∃ restored, shards.foldlM restoreShard state = .ok restored ∧
      restored.lastIngressSequence = state.lastIngressSequence ∧
      ∀ shard, restored.engines shard = if shard ∈ shards then bases shard else state.engines shard := by
  induction shards generalizing state with
  | nil => exact ⟨state, rfl, rfl, fun shard => by simp⟩
  | cons first shards ih =>
    obtain ⟨unlisted, once⟩ := List.nodup_cons.mp once
    have away : ∀ shard ∈ shards, shard ≠ first := fun shard listed same => unlisted (same ▸ listed)
    have step := restoreShard_loads (loads first (by simp)) (new first (by simp))
    obtain ⟨restored, rest, numbers, engines⟩ := @ih (state.setEngine first (bases first)) once
      (fun shard listed => loads shard (by simp [listed]))
      (fun shard listed => by
        simp only [ShardedMatchingEngine.setEngine, if_neg (away shard listed)]
        exact new shard (by simp [listed]))
    refine ⟨restored, ?_, numbers, fun shard => ?_⟩
    · rw [List.foldlM_cons, step]
      exact rest
    · rw [engines shard]
      by_cases here : shard = first
      · subst here
        simp [unlisted, ShardedMatchingEngine.setEngine]
      · simp [here, ShardedMatchingEngine.setEngine]

/-! ## The snapshot file over a run -/

/-- The store's snapshot loads to a twin of this engine. -/
def Stores (wal : WalStore) (taken : MatchingEngine) : Prop :=
  WellFormed taken ∧ ∃ base, Loads wal.files.snapshot base ∧ WellFormed base ∧ Twins base taken

theorem stores_new : Stores (.open_ {}) {} :=
  ⟨wellFormed_empty, {}, .nothing, wellFormed_empty, twins_empty⟩

theorem stores_saved {live : MatchingEngine} (wf : WellFormed live) (indexed : Indexed live) (wal : WalStore) :
    Stores (wal.saveSnapshot live.snapshot) live := by
  obtain ⟨restored, loaded, restoredWf, twins⟩ := SnapshotRestore.snapshot_restores wf indexed {}
  exact ⟨wf, restored, .document (snapshot_doubleFree live) loaded, restoredWf, twins⟩

theorem append_snapshot (wal : WalStore) (record : Json) :
    (wal.append record).files.snapshot = wal.files.snapshot := by
  rw [WalStore.append]
  split
  · rw [WalStore.flush]
    split <;> rfl
  · rfl

theorem close_snapshot (wal : WalStore) : wal.close.files.snapshot = wal.files.snapshot := by
  rw [WalStore.close]
  split
  · rw [WalStore.flush]
    split <;> rfl
  · rfl

theorem stores_closed {taken : MatchingEngine} (stores : Stores wal taken) : Stores (.open_ wal.close.files) taken := by
  obtain ⟨takenWf, base, loads, rest⟩ := stores
  refine ⟨takenWf, base, ?_, rest⟩
  rw [WalStore.open_, close_snapshot]
  exact loads

/-- A new engine restores the engines its directory's snapshots were taken of. -/
theorem restores (limits : RiskLimits) (files : Fin shardCount → Files) {taken : Fin shardCount → MatchingEngine}
    (stores : ∀ shard, Stores (.open_ (files shard)) (taken shard)) :
    ∃ restored, (ShardedMatchingEngine.create limits files).restoreFromSnapshots = .ok restored ∧
      ∀ shard, SameBooks (restored.engines shard) (taken shard) ∧
        SameResting (restored.engines shard) (taken shard) := by
  choose takenWf bases loads basesWf twins using stores
  obtain ⟨restored, ran, -, engines⟩ := @restore_loop shardCount (ShardedMatchingEngine.create limits files) bases
    (List.finRange shardCount) (List.nodup_finRange shardCount) (fun shard _ => loads shard) (fun _ _ => rfl)
  refine ⟨restored, ran, fun shard => ?_⟩
  rw [engines shard, if_pos (List.mem_finRange shard)]
  exact ⟨(twins shard).sameBooks (basesWf shard) (takenWf shard),
    (twins shard).sameResting (basesWf shard) (takenWf shard)⟩

variable [NeZero shardCount]

/-- Only `snapshot_all` writes snapshot files. -/
theorem effect_snapshot {call : ShardedMatchingEngine.Call} {next : ShardedMatchingEngine shardCount}
    {outcome : Outcome} (effect : Effect state call next outcome) (other : call ≠ .snapshotAll)
    (shard : Fin shardCount) : (next.wals shard).files.snapshot = (state.wals shard).files.snapshot := by
  cases effect with
  | rejected symbol orderId reason =>
    rw [withShard_wals]
    split
    · rename_i here
      rw [here]
    · rfl
  | riskRejected cmd reason counters =>
    rw [withShard_wals]
    split
    · rename_i here
      rw [here, append_snapshot]
    · rfl
  | command issued counters engine outcome =>
    rw [withShard_wals]
    split
    · rename_i here
      rw [here, append_snapshot]
    · rfl
  | snapshot taken => exact absurd taken other

/-- After every run the snapshot files hold the engines as they were when the
last snapshot was taken. -/
theorem run_stores (limits : RiskLimits) (calls : List ShardedMatchingEngine.Call)
    (fresh : Meets ShardedMatchingEngine.apply FreshCall
      (ShardedMatchingEngine.create limits (fun _ : Fin shardCount => {})) calls) :
    ∃ state outcomes taken outcomes',
      run ShardedMatchingEngine.apply
        (ShardedMatchingEngine.create limits (fun _ : Fin shardCount => {})) calls = .ok (state, outcomes) ∧
      run ShardedMatchingEngine.apply (ShardedMatchingEngine.create limits (fun _ : Fin shardCount => {}))
        (snapshotPoint calls) = .ok (taken, outcomes') ∧
      ∀ shard, Agrees (state.wals shard) (state.engines shard) ∧
        Stores (state.wals shard) (taken.engines shard) := by
  -- By induction on the last call: a snapshot moves the point, another call keeps the files.
  induction calls using List.reverseRecOn with
  | nil => exact ⟨_, _, _, _, rfl, rfl, fun shard => ⟨agrees_new, stores_new⟩⟩
  | append_singleton calls call ih =>
    obtain ⟨state, outcomes, taken, outcomes', ran, ranTaken, kept⟩ := ih (Runs.meets_front fresh)
    have guard : FreshCall state call := ((Runs.meets_append ran).mp fresh).2.1
    have sound : ∀ shard, WellFormed (state.engines shard) := fun shard => (kept shard).1.wellFormed
    obtain ⟨next, outcome, stepped, effect⟩ := apply_effect sound call
    obtain ⟨_, _, stepped', changes⟩ := apply_changes sound call
    cases stepped.symm.trans stepped'
    have agrees : ∀ shard, Agrees (next.wals shard) (next.engines shard) := by
      refine fun shard => agrees_change (kept shard).1 (changes shard) ?_
      rintro issued ⟨passed, rfl⟩
      exact guard issued passed
    by_cases snapshot : call = .snapshotAll
    · subst snapshot
      have ranNext := Runs.run_concat ran stepped
      refine ⟨next, outcomes ++ [outcome], next, outcomes ++ [outcome], ranNext, ?_,
        fun shard => ⟨agrees shard, ?_⟩⟩
      · rw [snapshotPoint_snapshot, ranNext]
      · cases stepped
        exact stores_saved (sound shard) (kept shard).1.indexed (state.wals shard)
    · refine ⟨next, _, taken, outcomes', Runs.run_concat ran stepped, ?_, fun shard => ⟨agrees shard, ?_⟩⟩
      · rw [snapshotPoint_other snapshot, ranTaken]
      · obtain ⟨takenWf, base, loads, rest⟩ := (kept shard).2
        refine ⟨takenWf, base, ?_, rest⟩
        rw [effect_snapshot effect snapshot shard]
        exact loads

/-- After every run and a restart every shard has the books it had when the
last snapshot was taken: the orders before the shutdown exactly when the
commands since then have changed nothing in them. -/
theorem restart_restores_iff (limits limits' : RiskLimits) (calls : List ShardedMatchingEngine.Call)
    (fresh : Meets ShardedMatchingEngine.apply FreshCall
      (ShardedMatchingEngine.create limits (fun _ : Fin shardCount => {})) calls) :
    ∃ state outcomes taken outcomes' restarted,
      run ShardedMatchingEngine.apply
        (ShardedMatchingEngine.create limits (fun _ : Fin shardCount => {})) calls = .ok (state, outcomes) ∧
      run ShardedMatchingEngine.apply (ShardedMatchingEngine.create limits (fun _ : Fin shardCount => {}))
        (snapshotPoint calls) = .ok (taken, outcomes') ∧
      (ShardedMatchingEngine.create limits' state.shutdown).restoreFromSnapshots = .ok restarted ∧
      ∀ shard, SameBooks (restarted.engines shard) (taken.engines shard) ∧
        (SameResting (restarted.engines shard) (state.engines shard) ↔
          SameResting (taken.engines shard) (state.engines shard)) := by
  obtain ⟨state, outcomes, taken, outcomes', ran, ranTaken, kept⟩ := run_stores limits calls fresh
  obtain ⟨restarted, restored, books⟩ := restores limits' state.shutdown
    (fun shard => stores_closed (kept shard).2)
  refine ⟨state, outcomes, taken, outcomes', restarted, ran, ranTaken, restored, fun shard => ?_⟩
  obtain ⟨stored, orders⟩ := books shard
  exact ⟨stored, orders.congr (state.engines shard)⟩

theorem mixed_calls_restart_iff :
    ∃ state outcomes taken outcomes' restarted,
      run ShardedMatchingEngine.apply
        (ShardedMatchingEngine.create {} (fun _ : Fin 2 => {})) mixedCalls = .ok (state, outcomes) ∧
      run ShardedMatchingEngine.apply (ShardedMatchingEngine.create {} (fun _ : Fin 2 => {}))
        (snapshotPoint mixedCalls) = .ok (taken, outcomes') ∧
      (ShardedMatchingEngine.create {} state.shutdown).restoreFromSnapshots = .ok restarted ∧
      ∀ shard, SameBooks (restarted.engines shard) (taken.engines shard) ∧
        (SameResting (restarted.engines shard) (state.engines shard) ↔
          SameResting (taken.engines shard) (state.engines shard)) :=
  restart_restores_iff {} {} mixedCalls (by decide)

/-- One resting order and no snapshot. -/
def unsavedAdd : List ShardedMatchingEngine.Call :=
  [.add { symbol := ascii "S", orderId := 1, participantId := ascii "A", priceTicks := 100, quantity := 5 } none]

/-- An order that is only in the log is gone after a restart. -/
theorem restart_loses_the_logged_order :
    ¬ ∀ calls (state restarted : ShardedMatchingEngine 1) outcomes,
      Meets ShardedMatchingEngine.apply FreshCall (ShardedMatchingEngine.create {} fun _ : Fin 1 => {}) calls →
      run ShardedMatchingEngine.apply (ShardedMatchingEngine.create {} fun _ => {}) calls = .ok (state, outcomes) →
      (ShardedMatchingEngine.create {} state.shutdown).restoreFromSnapshots = .ok restarted →
      ∀ shard, SameResting (restarted.engines shard) (state.engines shard) := by
  intro always
  have fresh : Meets ShardedMatchingEngine.apply FreshCall
      (ShardedMatchingEngine.create {} fun _ : Fin 1 => {}) unsavedAdd := by decide
  obtain ⟨state, outcomes, taken, outcomes', ran, ranTaken, kept⟩ := run_stores {} unsavedAdd fresh
  obtain ⟨restarted, restored, books⟩ := restores {} state.shutdown fun shard => stores_closed (kept shard).2
  have same := always unsavedAdd state restarted outcomes fresh ran restored 0 (ascii "S") .buy
  have start : snapshotPoint unsavedAdd = [] := by decide
  rw [start] at ranTaken
  cases ranTaken
  have live : (run ShardedMatchingEngine.apply (ShardedMatchingEngine.create {} fun _ : Fin 1 => {})
      unsavedAdd).map (fun result => (Twins.sideView .buy ((result.1.engines 0).levels (ascii "S") .buy)).length) =
        .ok 1 := by decide
  rw [ran] at live
  have one : (Twins.sideView .buy ((state.engines 0).levels (ascii "S") .buy)).length = 1 := Except.ok.inj live
  have none_ := ((books 0).2 (ascii "S") .buy).symm.trans same
  rw [← none_] at one
  exact absurd one (by decide)

end Exchange.Restart
