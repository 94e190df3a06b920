import Exchange.EventNumbers
import Exchange.ShardReplay

/-! The event counter after recovery. Replaying a log issues its commands
again and so counts their events again. The sharded layer also rejects calls
by itself, and each of these rejections moves the live counter: one for a stale
sequence number is not logged, and one by the risk check is logged but not
replayed. A replayed shard is therefore behind by the rejections since its last
snapshot, which does store the counter. -/
namespace Exchange.ReplayedCounter
open EngineSteps EngineInvariant OrderIndex ShardedSteps ShardReplay EventNumbers
open ShardedMatchingEngine (shardOf rebuild)

/-- Every resting order is the one its id maps to. -/
def AllLocated (engine : MatchingEngine) : Prop :=
  ∀ order ∈ engine.orders, engine.index.lookup order.orderId =
    some ⟨order.symbol, order.side, order.priceTicks, order.addr⟩

instance (engine : MatchingEngine) : Decidable (AllLocated engine) :=
  inferInstanceAs (Decidable (∀ order ∈ engine.orders, engine.index.lookup order.orderId = _))

theorem indexed_of_allLocated {engine : MatchingEngine} (wf : WellFormed engine) (located : AllLocated engine) :
    Indexed engine := by
  intro symbol side order member
  obtain ⟨placed, -⟩ := PriceLevels.level_of_mem_queue (wf.sides symbol side) member
  rw [located order (mem_orders.mpr ⟨symbol, side, member⟩), placed.symbol, placed.side]

/-- Snapshots are taken while no order of this shard hides another's id. -/
def SnapshotsLocated {shardCount : Nat} (shard : Fin shardCount) (state : ShardedMatchingEngine shardCount)
    (call : ShardedMatchingEngine.Call) : Prop :=
  call = .snapshotAll → AllLocated (state.engines shard)

instance {shardCount : Nat} (shard : Fin shardCount) (state : ShardedMatchingEngine shardCount)
    (call : ShardedMatchingEngine.Call) : Decidable (SnapshotsLocated shard state call) :=
  inferInstanceAs (Decidable (_ → _))

variable {shardCount : Nat} [NeZero shardCount]

/-- The call is turned away before it reaches the shard's engine. -/
def Rejects (state : ShardedMatchingEngine shardCount) (call : ShardedMatchingEngine.Call)
    (shard : Fin shardCount) : Prop :=
  (callSymbol call).map shardOf = some shard ∧ state.accepted call = none

instance (state : ShardedMatchingEngine shardCount) (call : ShardedMatchingEngine.Call) (shard : Fin shardCount) :
    Decidable (Rejects state call shard) :=
  inferInstanceAs (Decidable (_ ∧ _))

/-- The rejections a shard has to its name once a call is done; a snapshot
clears them. -/
def rejectionsAfter (state : ShardedMatchingEngine shardCount) (call : ShardedMatchingEngine.Call)
    (shard : Fin shardCount)
    (count : Nat) : Nat :=
  if call = .snapshotAll then 0 else if Rejects state call shard then count + 1 else count

/-- The rejections in a shard since the last snapshot of a run, or since its
start with `count` of them. -/
def rejectionsSince (shard : Fin shardCount) :
    Nat → ShardedMatchingEngine shardCount → List ShardedMatchingEngine.Call → Nat
  | count, _, [] => count
  | count, state, call :: calls =>
    match state.apply call with
    | .ok (next, _) => rejectionsSince shard (rejectionsAfter state call shard count) next calls
    | .error _ => count

/-- The events a shard has emitted. -/
def emittedBy (shard : Fin shardCount) (outcomes : List Outcome) : List ExecEvent :=
  (outcomes.flatMap Outcome.events).filter fun event => shardOf event.symbol = shard

/-- The rebuilt engine counts on where the live one is, and nothing it emits
carries a number that was emitted before. -/
structure NotReissued (rebuilt live : MatchingEngine) (emitted : List ExecEvent) : Prop where
  counter : rebuilt.nextSequence = live.nextSequence
  unused : ∀ commands next outcomes, run MatchingEngine.apply rebuilt commands = .ok (next, outcomes) →
    ∀ outcome ∈ outcomes, ∀ event ∈ outcome.events, ∀ earlier ∈ emitted, event.sequence ≠ earlier.sequence

/-! ## One shard -/

/-- The store leads to a twin of the live engine that is `count` events behind,
as long as the counter is one that a `long long` can hold. -/
structure Behind (count : Nat) (wal : WalStore) (live : MatchingEngine) : Prop where
  wellFormed : WellFormed live
  nonneg : 0 ≤ live.sequence
  recovers : ∃ base entries rebuilt, Holds wal base entries ∧ replayAll base entries = .ok rebuilt ∧
    WellFormed rebuilt ∧ Twins rebuilt live ∧
    (live.sequence < 2 ^ 63 → rebuilt.sequence + count = live.sequence)

variable {count : Nat} {wal : WalStore} {live next : MatchingEngine}

theorem behind_new : Behind 0 (.open_ {}) {} where
  wellFormed := wellFormed_empty
  nonneg := le_refl _
  recovers := ⟨{}, [], {}, holds_new, rfl, wellFormed_empty, twins_empty, fun _ => rfl⟩

/-- A rejection moves the live counter only. -/
theorem behind_reject (behind : Behind count wal live) (symbol : Bytes) (orderId : Int64) (reason : Bytes) :
    Behind (count + 1) wal (live.reject symbol orderId reason).1 where
  wellFormed := wellFormed_congr behind.wellFormed (fun _ _ => rfl) rfl rfl
  nonneg := by
    have before := behind.nonneg
    simp only [MatchingEngine.reject, MatchingEngine.event]
    omega
  recovers := by
    obtain ⟨base, entries, rebuilt, holds, replayed, wf, twins, counter⟩ := behind.recovers
    refine ⟨base, entries, rebuilt, holds, replayed, wf, twins.congr rfl rfl rfl rfl, ?_⟩
    simp only [MatchingEngine.reject, MatchingEngine.event]
    omega

/-- Logging a risk rejection changes nothing that is replayed. -/
theorem behind_riskRecord (behind : Behind count wal live) (cmd : AddOrder) (reason : Bytes) :
    Behind count (wal.append (riskRecord cmd reason)) live where
  wellFormed := behind.wellFormed
  nonneg := behind.nonneg
  recovers := by
    obtain ⟨base, entries, rebuilt, holds, replayed, wf, twins, counter⟩ := behind.recovers
    obtain ⟨later, held, same⟩ := replays_riskReject holds replayed cmd reason
    exact ⟨base, later, rebuilt, held, same, wf, twins, counter⟩

/-- A logged command moves both counters alike. -/
theorem behind_command (behind : Behind count wal live) {issued : Command} {outcome : Outcome}
    (ran : live.apply issued = .ok (next, outcome)) :
    Behind count (wal.append (commandRecord issued)) next := by
  obtain ⟨base, entries, rebuilt, holds, replayed, wf, twins, counter⟩ := behind.recovers
  have nextWf := wellFormed_of_apply behind.wellFormed ran
  obtain ⟨rebuiltNext, outcome', ran', rebuiltWf⟩ := apply_wellFormed wf issued
  obtain ⟨after, -, gap⟩ := twins_apply twins wf behind.wellFormed ran' ran
  have grows := (apply_bounds behind.wellFormed ran).1
  have before := behind.nonneg
  obtain ⟨later, held, replayed'⟩ := replays_command holds replayed ran'
  refine ⟨nextWf, by omega, base, later, rebuiltNext, held, replayed', rebuiltWf, after, fun small => ?_⟩
  have level := counter (by omega)
  omega

/-- A snapshot stores the counter, in whatever order it lists the books. -/
theorem behind_listing (behind : Behind count wal live) (located : AllLocated live) {snap : Json}
    (taken : live.IsSnapshot snap) : Behind 0 (wal.saveSnapshot snap) live where
  wellFormed := behind.wellFormed
  nonneg := behind.nonneg
  recovers := by
    obtain ⟨restored, loaded, wf, twins⟩ := SnapshotRestore.listing_restores behind.wellFormed
      (indexed_of_allLocated behind.wellFormed located) taken {}
    refine ⟨restored, [], restored, holds_saveSnapshot (listing_doubleFree taken) loaded wal, rfl, wf, twins,
      fun small => ?_⟩
    have low := behind.nonneg
    rw [SnapshotRestore.listing_sequence taken loaded, Int64.toInt_ofInt_of_le (by omega) small]
    simp

/-! ## Runs -/

variable {state : ShardedMatchingEngine shardCount}

/-- Events emitted so far are not above the counters of their shards. -/
def Numbered (state : ShardedMatchingEngine shardCount) (outcomes : List Outcome) : Prop :=
  ∀ outcome ∈ outcomes, ∀ event ∈ outcome.events,
    event.sequence ≤ (state.engines (shardOf event.symbol)).sequence

theorem rejectionsAfter_refused {call : ShardedMatchingEngine.Call} {symbol : Bytes}
    (named : callSymbol call = some symbol) (refused : state.accepted call = none) (shard : Fin shardCount)
    (count : Nat) :
    rejectionsAfter state call shard count = if shard = shardOf symbol then count + 1 else count := by
  have other : call ≠ .snapshotAll := by
    rintro rfl
    cases named
  simp only [rejectionsAfter, if_neg other, Rejects, named, refused, Option.map_some, Option.some.injEq, and_true,
    eq_comm]

theorem rejectionsAfter_accepted {call : ShardedMatchingEngine.Call} {issued : Command}
    (passed : state.accepted call = some issued) (shard : Fin shardCount) (count : Nat) :
    rejectionsAfter state call shard count = count := by
  have other : call ≠ .snapshotAll := by
    rintro rfl
    cases passed
  simp [rejectionsAfter, if_neg other, Rejects, passed]

omit [NeZero shardCount] in
/-- A call that touches one shard: any other is as far behind as before. -/
theorem behind_withShard {shard own : Fin shardCount} {after : Nat}
    (behind : Behind count (state.wals shard) (state.engines shard))
    (touched : own = shard → Behind after wal live) (other : shard ≠ own → after = count)
    (counters : Fin shardCount → Int64) :
    Behind after ((withShard { state with lastIngressSequence := counters } own wal live).wals shard)
      ((withShard { state with lastIngressSequence := counters } own wal live).engines shard) := by
  rw [withShard_wals, withShard_engines]
  by_cases here : shard = own
  · rw [if_pos here, if_pos here]
    exact touched here.symm
  · rw [if_neg here, if_neg here, other here]
    exact behind

theorem numbered_withShard {outcomes : List Outcome} {outcome : Outcome} {own : Fin shardCount}
    (numbered : Numbered state outcomes) (counters : Fin shardCount → Int64) (wal : WalStore)
    (grows : (state.engines own).sequence ≤ live.sequence)
    (fits : ∀ event ∈ outcome.events, shardOf event.symbol = own ∧ event.sequence ≤ live.sequence) :
    Numbered (withShard { state with lastIngressSequence := counters } own wal live) (outcomes ++ [outcome]) := by
  intro held member event inside
  rw [withShard_engines]
  rcases List.mem_append.mp member with earlier | last
  · have bound := numbered held earlier event inside
    split
    · rename_i here
      rw [here] at bound
      exact bound.trans grows
    · exact bound
  · rw [List.mem_singleton] at last
    rw [last] at inside
    rw [if_pos (fits event inside).1]
    exact (fits event inside).2

/-- Every call succeeds and keeps count of what a shard is behind. -/
theorem call_behind {shard : Fin shardCount} {outcomes : List Outcome}
    (sound : ∀ shard, WellFormed (state.engines shard))
    (behind : Behind count (state.wals shard) (state.engines shard)) (numbered : Numbered state outcomes)
    (call : ShardedMatchingEngine.Call) (located : SnapshotsLocated shard state call) :
    ∃ next outcome, state.apply call = .ok (next, outcome) ∧ Numbered next (outcomes ++ [outcome]) ∧
      Behind (rejectionsAfter state call shard count) (next.wals shard) (next.engines shard) := by
  obtain ⟨next, outcome, ran, effect⟩ := apply_effect sound call
  refine ⟨next, outcome, ran, ?_⟩
  have rejection : ∀ (engine : MatchingEngine) (symbol : Bytes) (orderId : Int64) (reason : Bytes),
      engine.sequence ≤ (engine.reject symbol orderId reason).1.sequence ∧
      ∀ event ∈ (⟨[(engine.reject symbol orderId reason).2], []⟩ : Outcome).events,
        (shardOf event.symbol : Fin shardCount) = shardOf symbol ∧
          event.sequence ≤ (engine.reject symbol orderId reason).1.sequence := by
    intro engine symbol orderId reason
    simp [MatchingEngine.reject, MatchingEngine.event]
  cases effect with
  | rejected symbol orderId reason named refused =>
    obtain ⟨grows, fits⟩ := rejection (state.engines (shardOf symbol)) symbol orderId reason
    refine ⟨numbered_withShard numbered state.lastIngressSequence _ grows fits,
      behind_withShard behind (fun here => ?_) (fun away => ?_) state.lastIngressSequence⟩
    · rw [rejectionsAfter_refused named refused, here, if_pos rfl]
      exact behind_reject behind symbol orderId reason
    · rw [rejectionsAfter_refused named refused, if_neg away]
  | riskRejected cmd reason counters named refused =>
    obtain ⟨grows, fits⟩ := rejection (state.engines (shardOf cmd.symbol)) cmd.symbol cmd.orderId reason
    refine ⟨numbered_withShard numbered counters _ grows fits,
      behind_withShard behind (fun here => ?_) (fun away => ?_) counters⟩
    · rw [rejectionsAfter_refused named refused, here, if_pos rfl]
      exact behind_reject (behind_riskRecord behind cmd reason) cmd.symbol cmd.orderId reason
    · rw [rejectionsAfter_refused named refused, if_neg away]
  | command issued counters engine outcome named passed applied =>
    have bounds := apply_bounds (sound _) applied
    refine ⟨numbered_withShard numbered counters _ bounds.1 fun event member => ?_,
      behind_withShard behind (fun here => ?_) (fun away => ?_) counters⟩
    · exact ⟨by rw [(bounds.2 event member).1], (bounds.2 event member).2.2⟩
    · rw [rejectionsAfter_accepted passed]
      rw [here] at applied ⊢
      exact behind_command behind applied
    · rw [rejectionsAfter_accepted passed]
  | snapshot taken =>
    refine ⟨fun held member => ?_, ?_⟩
    · rcases List.mem_append.mp member with earlier | last
      · exact numbered held earlier
      · rw [List.mem_singleton.mp last]
        simp
    · rw [rejectionsAfter, if_pos taken]
      exact behind_listing behind (located taken) (state.engines shard).isSnapshot_snapshot

/-- Every run succeeds and keeps count of what a shard is behind. -/
theorem run_behind {shard : Fin shardCount} {history : List Outcome} (calls : List ShardedMatchingEngine.Call)
    (sound : ∀ shard, WellFormed (state.engines shard))
    (behind : Behind count (state.wals shard) (state.engines shard)) (numbered : Numbered state history)
    (located : Meets ShardedMatchingEngine.apply (SnapshotsLocated shard) state calls) :
    ∃ final outcomes, run ShardedMatchingEngine.apply state calls = .ok (final, outcomes) ∧
      Numbered final (history ++ outcomes) ∧
      Behind (rejectionsSince shard count state calls) (final.wals shard) (final.engines shard) := by
  induction calls generalizing state count history with
  | nil => exact ⟨state, [], rfl, by simpa using numbered, behind⟩
  | cons call calls ih =>
    obtain ⟨next, outcome, ran, nextNumbered, nextBehind⟩ := call_behind sound behind numbered call located.1
    obtain ⟨next', outcome', ran', nextSound⟩ := apply_sound sound call
    rw [ran] at ran'
    cases ran'
    have later := located.2
    simp only [ran] at later
    obtain ⟨final, outcomes, rest, last, finally_⟩ := ih nextSound nextBehind nextNumbered later
    refine ⟨final, outcome :: outcomes, ?_, by simpa using last, ?_⟩
    · rw [Runs.run_cons ran, rest]
      rfl
    · simp only [rejectionsSince, ran]
      exact finally_

omit [NeZero shardCount] in
/-- Replaying a shard leads to the live counter less the rejections. -/
theorem replayShard_behind {shard : Fin shardCount}
    (behind : Behind count (state.wals shard) (state.engines shard)) :
    ∃ state' rebuilt, state.replayShard shard = .ok (state', rebuilt) ∧ WellFormed rebuilt ∧
      ((state.engines shard).sequence < 2 ^ 63 → rebuilt.sequence + count = (state.engines shard).sequence) := by
  obtain ⟨base, entries, rebuilt, holds, replayed, wf, -, counter⟩ := behind.recovers
  have recovered : rebuild (state.wals shard) = .ok ((state.wals shard).flush, rebuilt) := by
    rw [rebuild_eq holds, replayed]
    rfl
  refine ⟨state.setWal shard (state.wals shard).flush, rebuilt, ?_, wf, counter⟩
  simp only [ShardedMatchingEngine.replayShard, recovered, bind, Except.bind]

omit [NeZero shardCount] in
theorem behind_created (limits : RiskLimits) (shard : Fin shardCount) :
    Behind 0 ((ShardedMatchingEngine.create limits fun _ => {}).wals shard)
      ((ShardedMatchingEngine.create limits fun _ => {}).engines shard) := behind_new

theorem numbered_created (limits : RiskLimits) :
    Numbered (ShardedMatchingEngine.create limits (fun _ : Fin shardCount => {})) [] :=
  fun _ member => absurd member List.not_mem_nil

/-- After every run, a replayed shard counts on where the live engine is, and
re-issues no number, exactly when none of its calls was rejected by the sharded
layer since the last snapshot. -/
theorem numbers_recovered_iff (limits : RiskLimits) (calls : List ShardedMatchingEngine.Call) (shard : Fin shardCount)
    (located : Meets ShardedMatchingEngine.apply (SnapshotsLocated shard)
      (ShardedMatchingEngine.create limits (fun _ => {})) calls) :
    ∃ state outcomes, run ShardedMatchingEngine.apply
        (ShardedMatchingEngine.create limits (fun _ : Fin shardCount => {})) calls = .ok (state, outcomes) ∧
      ∃ state' rebuilt, state.replayShard shard = .ok (state', rebuilt) ∧
        ((state.engines shard).sequence < 2 ^ 63 →
          (NotReissued rebuilt (state.engines shard) (emittedBy shard outcomes) ↔
            rejectionsSince shard 0
              (ShardedMatchingEngine.create limits (fun _ : Fin shardCount => {})) calls = 0)) := by
  obtain ⟨state, outcomes, ran, numbered, behind⟩ := run_behind calls (fun _ => wellFormed_empty)
    (behind_created limits shard) (numbered_created limits) located
  obtain ⟨state', rebuilt, replayed, wf, counter⟩ := replayShard_behind behind
  refine ⟨state, outcomes, ran, state', rebuilt, replayed, fun small => ?_⟩
  have level := counter small
  constructor
  · intro kept
    have same := kept.counter
    simp only [MatchingEngine.nextSequence] at same
    omega
  · intro none_
    have same : rebuilt.sequence = (state.engines shard).sequence := by omega
    refine ⟨by rw [MatchingEngine.nextSequence, MatchingEngine.nextSequence, same], ?_⟩
    intro commands next later runs outcome member event inside earlier emitted equal
    obtain ⟨emitted, here⟩ := List.mem_filter.mp emitted
    obtain ⟨before, held, inside'⟩ := List.mem_flatMap.mp emitted
    have old := numbered before held earlier inside'
    rw [of_decide_eq_true here, ← same] at old
    have new := run_bounds wf runs outcome member event inside
    omega

/-- A rejection before a snapshot, and an order behind it. -/
def settledCalls : List ShardedMatchingEngine.Call :=
  [.add { symbol := ascii "S", orderId := 1, participantId := ascii "A", priceTicks := 100, quantity := 5 } none,
    .cancel { symbol := ascii "S", orderId := 1 } (some 0),
    .snapshotAll,
    .add { symbol := ascii "S", orderId := 2, participantId := ascii "B", priceTicks := 99, quantity := 5 } none]

theorem settled_calls_recovered_iff :
    ∃ state outcomes, run ShardedMatchingEngine.apply
        (ShardedMatchingEngine.create {} (fun _ : Fin 1 => {})) settledCalls = .ok (state, outcomes) ∧
      ∃ state' rebuilt, state.replayShard 0 = .ok (state', rebuilt) ∧
        ((state.engines 0).sequence < 2 ^ 63 →
          (NotReissued rebuilt (state.engines 0) (emittedBy (0 : Fin 1) outcomes) ↔
            rejectionsSince 0 0 (ShardedMatchingEngine.create {} (fun _ : Fin 1 => {})) settledCalls = 0)) :=
  numbers_recovered_iff {} settledCalls 0 (by decide)

/-- An add of nothing, which the risk check refuses. -/
def refusedAdd : List ShardedMatchingEngine.Call :=
  [.add { symbol := ascii "S", orderId := 1, participantId := ascii "A", priceTicks := 100, quantity := 0 } none]

/-- After a risk rejection the replayed counter is one behind the live one. -/
theorem rejection_is_not_counted_again :
    ¬ ∀ calls (state state' : ShardedMatchingEngine 1) outcomes rebuilt, run ShardedMatchingEngine.apply
        (ShardedMatchingEngine.create {} fun _ => {}) calls = .ok (state, outcomes) →
      state.replayShard 0 = .ok (state', rebuilt) →
      NotReissued rebuilt (state.engines 0) (emittedBy (0 : Fin 1) outcomes) := by
  intro always
  have located : Meets ShardedMatchingEngine.apply (SnapshotsLocated 0)
      (ShardedMatchingEngine.create {} fun _ : Fin 1 => {}) refusedAdd := by decide
  obtain ⟨state, outcomes, ran, -, behind⟩ := run_behind refusedAdd (fun _ => wellFormed_empty)
    (behind_created {} 0) (numbered_created {}) located
  obtain ⟨state', rebuilt, replayed, -, counter⟩ := replayShard_behind behind
  have once : rejectionsSince (0 : Fin 1) 0 (ShardedMatchingEngine.create {} fun _ => {}) refusedAdd = 1 := by
    decide
  have live : (run ShardedMatchingEngine.apply (ShardedMatchingEngine.create {} fun _ : Fin 1 => {})
      refusedAdd).map (fun result => (result.1.engines 0).sequence) = .ok 1 := by decide
  rw [ran] at live
  have one : (state.engines 0).sequence = 1 := Except.ok.inj live
  have same := (always refusedAdd state state' outcomes rebuilt ran replayed).counter
  rw [once, one] at counter
  simp only [MatchingEngine.nextSequence, one] at same
  have level := counter (by norm_num)
  omega

end Exchange.ReplayedCounter
