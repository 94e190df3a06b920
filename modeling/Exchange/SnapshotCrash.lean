import Exchange.ShardReplay

/-! Crashes while a snapshot is saved. Before the rename recovery reads the old
snapshot and the whole log, after the truncation the new snapshot and an empty
log; both lead to the live books. In between, the new snapshot stands beside
the log it supersedes, and recovery issues the logged commands a second time. -/
namespace Exchange.SnapshotCrash
open EngineInvariant OrderIndex WalLog ShardedSteps ShardReplay
open ShardedMatchingEngine (rebuild)

/-- How far `save_snapshot` got. While the temporary file is written it holds
some front of the document. -/
inductive CrashPoint where
  | afterFlush
  | writingTemp (written : Nat)
  | afterRename
  | afterTruncate
  deriving DecidableEq

/-- The files a crash leaves. -/
def crashFiles (store : WalStore) (snapshot : Json) : CrashPoint → Files
  | .afterFlush => store.flush.files
  | .writingTemp written => (store.flush.writeTemp (snapshot.dump.take written)).files
  | .afterRename => (store.flush.writeTemp snapshot.dump).commitTemp.files
  | .afterTruncate => (store.saveSnapshot snapshot).files

/-- Issuing the logged commands again would leave the live books as they are. -/
def RepeatsNothing (wal : WalStore) (live : MatchingEngine) : Prop :=
  ∃ records again, replayLines (lines (wal.files.wal ++ wal.pending)) = .ok records ∧
    records.foldlM applyRecord live = .ok again ∧ SameResting again live

variable {wal : WalStore} {base live first second : MatchingEngine} {entries : List Entry}

/-- Twins stay twins when the same entries are replayed on both. -/
theorem replayAll_twins (twins : Twins first second) (wf : WellFormed first) (wf' : WellFormed second)
    (entries : List Entry) :
    ∃ next next', replayAll first entries = .ok next ∧ replayAll second entries = .ok next' ∧
      WellFormed next ∧ WellFormed next' ∧ Twins next next' := by
  induction entries generalizing first second with
  | nil => exact ⟨first, second, rfl, rfl, wf, wf', twins⟩
  | cons entry entries ih =>
    cases entry with
    | riskReject cmd reason => exact ih twins wf wf'
    | command issued =>
      obtain ⟨next, outcome, ran, nextWf⟩ := apply_wellFormed wf issued
      obtain ⟨next', outcome', ran', nextWf'⟩ := apply_wellFormed wf' issued
      obtain ⟨last, last', replayed, replayed', rest⟩ :=
        ih (twins.apply wf wf' ran ran').1 nextWf nextWf'
      refine ⟨last, last', ?_, ?_, rest⟩
      · rw [replayAll, List.foldlM_cons, Entry.replay, ran]
        exact replayed
      · rw [replayAll, List.foldlM_cons, Entry.replay, ran']
        exact replayed'

theorem repeatsNothing_iff (holds : Holds wal base entries) :
    RepeatsNothing wal live ↔ ∃ again, replayAll live entries = .ok again ∧ SameResting again live := by
  have read : replayLines (lines (wal.files.wal ++ wal.pending)) = .ok (entries.map Entry.record) := by
    rw [holds.logged, replayLines_log _ (records_doubleFree entries)]
  simp only [RepeatsNothing, read, Except.ok.injEq, ← applyRecords]
  exact ⟨fun ⟨_, again, same, rest⟩ => ⟨again, by rw [same]; exact rest⟩,
    fun ⟨again, rest⟩ => ⟨_, again, rfl, rest⟩⟩

/-- Reopened on the old snapshot and the flushed log. -/
theorem holds_reopened (holds : Holds wal base entries) (temp : Option Bytes) :
    Holds (.open_ { wal.flush.files with temp := temp }) base entries := by
  obtain ⟨flushed, file⟩ := holds_flush holds
  exact ⟨rfl, by simp [WalStore.open_, file], flushed.loads⟩

/-- Reopened on the new snapshot and the log it supersedes. -/
theorem holds_afterRename (holds : Holds wal base entries) {snap : Json} {loaded : MatchingEngine}
    (plain : JsonRoundTrip.doubleFree snap = true)
    (loads : ({} : MatchingEngine).loadSnapshot snap = .ok loaded) :
    Holds (.open_ (crashFiles wal snap .afterRename)) loaded entries := by
  obtain ⟨-, file⟩ := holds_flush holds
  refine ⟨rfl, ?_, .document plain loads⟩
  simp only [crashFiles, WalStore.open_, WalStore.commitTemp, WalStore.writeTemp, List.append_nil]
  exact file

/-- Recovery after a crash, at every point: only between the rename and the
truncation can it miss the live books, and it does so when the log repeats. -/
theorem crash_rebuild (agrees : Agrees wal live) (point : CrashPoint) :
    ∃ store rebuilt, rebuild (.open_ (crashFiles wal live.snapshot point)) = .ok (store, rebuilt) ∧
      (point ≠ .afterRename → SameBooks rebuilt live) ∧
      (SameResting rebuilt live ↔ (point = .afterRename → RepeatsNothing wal live)) := by
  obtain ⟨base, entries, rebuilt, holds, replayed, wf, twins⟩ := agrees.recovers
  -- Where the old snapshot and the whole log are there, nothing is lost.
  have reopened : ∀ temp, Agrees (.open_ { wal.flush.files with temp := temp }) live := fun temp =>
    ⟨agrees.wellFormed, agrees.indexed, base, entries, rebuilt, holds_reopened holds temp, replayed, wf, twins⟩
  have settled : ∀ files, Agrees (.open_ files) live → point ≠ .afterRename →
      ∃ store rebuilt, rebuild (.open_ files) = .ok (store, rebuilt) ∧
        (point ≠ .afterRename → SameBooks rebuilt live) ∧
        (SameResting rebuilt live ↔ (point = .afterRename → RepeatsNothing wal live)) := by
    intro files agreed elsewhere
    obtain ⟨rebuilt, ran, wf, twins⟩ := agrees_rebuild agreed
    exact ⟨_, rebuilt, ran, fun _ => twins.sameBooks wf agreed.wellFormed, fun _ here => absurd here elsewhere,
      fun _ => twins.sameResting wf agreed.wellFormed⟩
  obtain ⟨restored, loaded, restoredWf, restoredTwins⟩ :=
    SnapshotRestore.snapshot_restores agrees.wellFormed agrees.indexed {}
  cases point with
  | afterFlush => exact settled _ (reopened wal.flush.files.temp) (by simp)
  | writingTemp written => exact settled _ (reopened _) (by simp)
  | afterTruncate =>
    refine settled _ ⟨agrees.wellFormed, agrees.indexed, restored, [], restored, ?_, rfl, restoredWf,
      restoredTwins⟩ (by simp)
    exact ⟨rfl, rfl, .document (snapshot_doubleFree live) loaded⟩
  | afterRename =>
    obtain ⟨again, again', replay, replay', againWf, againWf', againTwins⟩ :=
      replayAll_twins restoredTwins restoredWf agrees.wellFormed entries
    have same := againTwins.sameResting againWf againWf'
    have recovered := rebuild_eq (holds_afterRename holds (snapshot_doubleFree live) loaded)
    rw [replay] at recovered
    refine ⟨_, again, recovered, fun elsewhere => absurd rfl elsewhere, ?_⟩
    simp only [repeatsNothing_iff holds, replay', Except.ok.injEq, exists_eq_left', forall_const]
    exact same.congr live

variable {shardCount : Nat}

/-- The directory after a crash in one shard's `save_snapshot`. -/
def crashed (state : ShardedMatchingEngine shardCount) (shard : Fin shardCount) (point : CrashPoint) :
    Fin shardCount → Files :=
  fun other => if other = shard then crashFiles (state.wals shard) (state.engines shard).snapshot point
    else (state.wals other).files

/-- A restarted engine recovers a shard from the files the crash left. -/
theorem replayShard_crashed (limits : RiskLimits) {state : ShardedMatchingEngine shardCount}
    {shard : Fin shardCount} (agrees : Agrees (state.wals shard) (state.engines shard)) (point : CrashPoint) :
    ∃ restarted rebuilt,
      (ShardedMatchingEngine.create limits (crashed state shard point)).replayShard shard =
        .ok (restarted, rebuilt) ∧
      (point ≠ .afterRename → SameBooks rebuilt (state.engines shard)) ∧
      (SameResting rebuilt (state.engines shard) ↔
        (point = .afterRename → RepeatsNothing (state.wals shard) (state.engines shard))) := by
  obtain ⟨store, rebuilt, recovered, exactly⟩ := crash_rebuild agrees point
  have files : (ShardedMatchingEngine.create limits (crashed state shard point)).wals shard =
      .open_ (crashFiles (state.wals shard) (state.engines shard).snapshot point) := by
    simp [ShardedMatchingEngine.create, crashed]
  refine ⟨(ShardedMatchingEngine.create limits (crashed state shard point)).setWal shard store, rebuilt, ?_,
    exactly⟩
  simp only [ShardedMatchingEngine.replayShard, files, recovered, bind, Except.bind]

variable [NeZero shardCount]

/-- After every run, a crash in `save_snapshot` and a restart, recovery finds
the live books. If the crash fell between the rename and the truncation it finds
their orders exactly when the commands in the log are idempotent on the live
engine. -/
theorem crash_recovers_iff (limits : RiskLimits) (calls : List ShardedMatchingEngine.Call)
    (fresh : Meets ShardedMatchingEngine.apply FreshCall
      (ShardedMatchingEngine.create limits (fun _ : Fin shardCount => {})) calls) :
    ∃ state outcomes, run ShardedMatchingEngine.apply
        (ShardedMatchingEngine.create limits (fun _ : Fin shardCount => {})) calls = .ok (state, outcomes) ∧
      ∀ shard point, ∃ restarted rebuilt,
        (ShardedMatchingEngine.create limits (crashed state shard point)).replayShard shard =
          .ok (restarted, rebuilt) ∧
        (point ≠ .afterRename → SameBooks rebuilt (state.engines shard)) ∧
        (SameResting rebuilt (state.engines shard) ↔
          (point = .afterRename → RepeatsNothing (state.wals shard) (state.engines shard))) := by
  obtain ⟨state, outcomes, ran, agrees⟩ := runs_agree limits calls fresh
  exact ⟨state, outcomes, ran, fun shard point => replayShard_crashed limits (agrees shard) point⟩

/-- A buy order on an empty book. -/
def restingBuy : AddOrder where
  symbol := ascii "S"
  orderId := 1
  participantId := ascii "A"
  priceTicks := 100
  quantity := 5

theorem one_order_crash_recovers_iff :
    ∃ state outcomes, run ShardedMatchingEngine.apply
        (ShardedMatchingEngine.create {} (fun _ : Fin 1 => {})) [.add restingBuy none] =
          .ok (state, outcomes) ∧
      ∀ shard point, ∃ restarted rebuilt,
        (ShardedMatchingEngine.create {} (crashed state shard point)).replayShard shard =
          .ok (restarted, rebuilt) ∧
        (point ≠ .afterRename → SameBooks rebuilt (state.engines shard)) ∧
        (SameResting rebuilt (state.engines shard) ↔
          (point = .afterRename → RepeatsNothing (state.wals shard) (state.engines shard))) :=
  crash_recovers_iff {} [.add restingBuy none] (by decide)

/-- One order, a snapshot, and a crash before the log is truncated: recovery
rests the order twice. -/
theorem crash_before_truncation_repeats_the_log :
    ∃ state outcomes restarted rebuilt, run ShardedMatchingEngine.apply
        (ShardedMatchingEngine.create {} (fun _ : Fin 1 => {})) [.add restingBuy none] =
          .ok (state, outcomes) ∧
      (ShardedMatchingEngine.create {} (crashed state 0 .afterRename)).replayShard 0 =
        .ok (restarted, rebuilt) ∧ ¬ SameResting rebuilt (state.engines 0) := by
  obtain ⟨state, outcomes, ran, agrees⟩ := @runs_agree 1 _ {} [.add restingBuy none] (by decide)
  obtain ⟨restarted, rebuilt, recovered, -, exactly⟩ := replayShard_crashed {} (agrees 0) .afterRename
  refine ⟨state, outcomes, restarted, rebuilt, ran, recovered, ?_⟩
  have stored : (run ShardedMatchingEngine.apply (ShardedMatchingEngine.create {} (fun _ : Fin 1 => {}))
      [.add restingBuy none]).map (fun result => result.1.wals 0) =
        .ok ((WalStore.open_ {}).append (commandRecord (.add restingBuy))) := rfl
  have kept : (run ShardedMatchingEngine.apply (ShardedMatchingEngine.create {} (fun _ : Fin 1 => {}))
      [.add restingBuy none]).map (fun result => result.1.engines 0) =
        (({} : MatchingEngine).add restingBuy).map Prod.fst := rfl
  have doubled : ((({} : MatchingEngine).add restingBuy).map Prod.fst).bind (fun live =>
      (replayAll live [.command (.add restingBuy)]).map fun again =>
        decide (Twins.sideView .buy (again.levels (ascii "S") .buy) =
          Twins.sideView .buy (live.levels (ascii "S") .buy))) = .ok false := by
    decide
  rw [ran] at stored kept
  rw [← kept] at doubled
  intro same
  have repeats := exactly.mp same rfl
  have wal : state.wals 0 = (WalStore.open_ {}).append (commandRecord (.add restingBuy)) := Except.ok.inj stored
  rw [wal] at repeats
  obtain ⟨again, replayed, same⟩ :=
    (repeatsNothing_iff (holds_append holds_new (.command (.add restingBuy)))).mp repeats
  simp only [Except.map, Except.bind, List.nil_append] at doubled replayed
  rw [replayed] at doubled
  exact of_decide_eq_false (Except.ok.inj doubled) (same (ascii "S") .buy)

end Exchange.SnapshotCrash
