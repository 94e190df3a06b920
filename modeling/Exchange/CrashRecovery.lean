import Exchange.GroupCommit
import Exchange.ShardComponents
import Exchange.ShardReplay

/-! A crash of the process. The staged bytes of every log are lost but for a front
that reached the file, so a shard may come back without the last of its logged
calls. What comes back is nevertheless a state the shard has been in: its engine
after some front of the run, with at most the last window of logged calls missing. -/
namespace Exchange.CrashRecovery
open EngineInvariant OrderIndex JsonRoundTrip WalLog GroupCommit ShardedSteps ShardReplay
open ShardedMatchingEngine (rebuild shardOf Call)

variable {shardCount : Nat} [NeZero shardCount] {state next : ShardedMatchingEngine shardCount}

/-! ## What a call logs -/

/-- The entry a call writes to the log of its shard, once it is past the sequence check. -/
def entryOf (state : ShardedMatchingEngine shardCount) : Call → Option Entry
  | .add cmd number =>
    if state.inOrder cmd.symbol number then
      match checkAdd state.limits cmd with
      | some reason => some (.riskReject cmd reason)
      | none => some (.command (.add cmd))
    else none
  | .cancel cmd number => if state.inOrder cmd.symbol number then some (.command (.cancel cmd)) else none
  | .replace cmd number => if state.inOrder cmd.symbol number then some (.command (.replace cmd)) else none
  | .snapshotAll => none

/-- The entry a call writes to this shard's log. -/
def entryAt (state : ShardedMatchingEngine shardCount) (shard : Fin shardCount) (call : Call) : Option Entry :=
  if (callSymbol call).map shardOf = some shard then entryOf state call else none

/-- What an entry says of the engine of its shard when it is written. -/
inductive Written (live : MatchingEngine) : Entry → MatchingEngine → Prop where
  | command {issued : Command} {after : MatchingEngine} {outcome : Outcome}
      (ran : live.apply issued = .ok (after, outcome)) : Written live (.command issued) after
  | riskReject (cmd : AddOrder) (reason : Bytes) :
      Written live (.riskReject cmd reason) (live.reject cmd.symbol cmd.orderId reason).1

/-- What a call does to one shard: it takes its snapshot, or writes an entry and
does what the entry says, or leaves the log and at most rejects. -/
inductive ShardStep (state : ShardedMatchingEngine shardCount) (shard : Fin shardCount) (call : Call) :
    WalStore → MatchingEngine → Prop where
  | snapshot (taken : call = .snapshotAll) :
      ShardStep state shard call ((state.wals shard).saveSnapshot (state.engines shard).snapshot) (state.engines shard)
  | logged {entry : Entry} {after : MatchingEngine} (entered : entryAt state shard call = some entry)
      (written : Written (state.engines shard) entry after) :
      ShardStep state shard call ((state.wals shard).append entry.record) after
  | untouched (unlogged : entryAt state shard call = none) :
      ShardStep state shard call (state.wals shard) (state.engines shard)
  | rejected (unlogged : entryAt state shard call = none) (symbol : Bytes) (orderId : Int64) (reason : Bytes) :
      ShardStep state shard call (state.wals shard) ((state.engines shard).reject symbol orderId reason).1

/-- One shard's step is a step of every shard: the others see nothing. -/
theorem shardStep_withShard {call : Call} {own : Fin shardCount} {wal : WalStore} {engine : MatchingEngine}
    {counters : Fin shardCount → Int64} (named : (callSymbol call).map shardOf = some own)
    (step : ShardStep state own call wal engine) (shard : Fin shardCount) :
    ShardStep state shard call
      ((withShard { state with lastIngressSequence := counters } own wal engine).wals shard)
      ((withShard { state with lastIngressSequence := counters } own wal engine).engines shard) := by
  rw [withShard_wals, withShard_engines]
  by_cases here : shard = own
  · subst here
    simpa using step
  · simp only [if_neg here]
    refine .untouched ?_
    have elsewhere : ¬ some own = some shard := by
      simpa using fun same => here same.symm
    rw [entryAt, named, if_neg elsewhere]

theorem entryAt_own {call : Call} {own : Fin shardCount} (named : (callSymbol call).map shardOf = some own) :
    entryAt state own call = entryOf state call := by
  rw [entryAt, if_pos named]

/-- A call that is out of order writes nothing. -/
theorem shardStep_stale {call : Call} {symbol : Bytes} (named : callSymbol call = some symbol)
    (unlogged : entryOf state call = none) (orderId : Int64) (reason : Bytes) (shard : Fin shardCount) :
    let engine := ((state.engines (shardOf symbol)).reject symbol orderId reason).1
    ShardStep state shard call ((state.setEngine (shardOf symbol) engine).wals shard)
      ((state.setEngine (shardOf symbol) engine).engines shard) := by
  intro engine
  have own : (callSymbol call).map shardOf = some (shardOf symbol : Fin shardCount) := by
    rw [named]
    rfl
  rw [setEngine_withShard]
  refine shardStep_withShard own (.rejected ?_ symbol orderId reason) shard
  rw [entryAt_own own, unlogged]

/-- A command past the checks is written and applied. -/
theorem shardStep_command {call : Call} {issued : Command} {engine : MatchingEngine} {outcome : Outcome}
    (counters : Fin shardCount → Int64) (named : callSymbol call = some issued.symbol)
    (entered : entryOf state call = some (.command issued))
    (ran : (state.engines (shardOf issued.symbol)).apply issued = .ok (engine, outcome)) (shard : Fin shardCount) :
    let next := withShard { state with lastIngressSequence := counters } (shardOf issued.symbol)
      ((state.wals (shardOf issued.symbol)).append (commandRecord issued)) engine
    ShardStep state shard call (next.wals shard) (next.engines shard) := by
  have own : (callSymbol call).map shardOf = some (shardOf issued.symbol : Fin shardCount) := by
    rw [named]
    rfl
  exact shardStep_withShard own (.logged ((entryAt_own own).trans entered) (.command ran)) shard

/-- A refusal by risk is written and answered. -/
theorem shardStep_riskReject {call : Call} {cmd : AddOrder} {reason : Bytes}
    (counters : Fin shardCount → Int64) (named : callSymbol call = some cmd.symbol)
    (entered : entryOf state call = some (.riskReject cmd reason)) (shard : Fin shardCount) :
    let next := withShard { state with lastIngressSequence := counters } (shardOf cmd.symbol)
      ((state.wals (shardOf cmd.symbol)).append (riskRecord cmd reason))
      ((state.engines (shardOf cmd.symbol)).reject cmd.symbol cmd.orderId reason).1
    ShardStep state shard call (next.wals shard) (next.engines shard) := by
  have own : (callSymbol call).map shardOf = some (shardOf cmd.symbol : Fin shardCount) := by
    rw [named]
    rfl
  exact shardStep_withShard own (.logged ((entryAt_own own).trans entered) (.riskReject cmd reason)) shard

/-- Every call of a sound engine succeeds and is a step of every shard. -/
theorem apply_shardStep (sound : ∀ shard, WellFormed (state.engines shard)) (call : Call) :
    ∃ next outcome, state.apply call = .ok (next, outcome) ∧
      ∀ shard, ShardStep state shard call (next.wals shard) (next.engines shard) := by
  cases call with
  | add cmd number =>
    rw [ShardedMatchingEngine.apply, ShardedMatchingEngine.add]
    rcases validateIngress_cases state cmd.symbol number cmd.orderId with
      ⟨stale, refused⟩ | ⟨inOrder, counters, passed⟩
    · rw [refused]
      have unlogged : entryOf state (.add cmd number) = none := by simp [entryOf, stale]
      exact ⟨_, _, rfl, shardStep_stale rfl unlogged cmd.orderId _⟩
    · rw [passed]
      cases checked : checkAdd state.limits cmd with
      | some reason =>
        simp only [checked]
        have entered : entryOf state (.add cmd number) = some (.riskReject cmd reason) := by
          simp [entryOf, inOrder, checked]
        exact ⟨_, _, rfl, shardStep_riskReject counters rfl entered⟩
      | none =>
        obtain ⟨engine, outcome, ran, -⟩ := apply_wellFormed (sound (shardOf cmd.symbol)) (.add cmd)
        have applied := ran
        rw [MatchingEngine.apply] at ran
        simp only [checked, ShardedMatchingEngine.log, ShardedMatchingEngine.setWal, ran, bind, Except.bind]
        have entered : entryOf state (.add cmd number) = some (.command (.add cmd)) := by
          simp [entryOf, inOrder, checked]
        exact ⟨_, _, rfl, shardStep_command counters rfl entered applied⟩
  | cancel cmd number =>
    rw [ShardedMatchingEngine.apply, ShardedMatchingEngine.cancel]
    rcases validateIngress_cases state cmd.symbol number cmd.orderId with
      ⟨stale, refused⟩ | ⟨inOrder, counters, passed⟩
    · rw [refused]
      have unlogged : entryOf state (.cancel cmd number) = none := by simp [entryOf, stale]
      exact ⟨_, _, rfl, shardStep_stale rfl unlogged cmd.orderId _⟩
    · rw [passed]
      obtain ⟨engine, outcome, ran, -⟩ := apply_wellFormed (sound (shardOf cmd.symbol)) (.cancel cmd)
      have applied := ran
      rw [MatchingEngine.apply] at ran
      obtain ⟨result, cancelled, shape⟩ := Runs.bind_ok_iff.mp ran
      simp only [Except.ok.injEq, Prod.mk.injEq] at shape
      obtain ⟨rfl, rfl⟩ := shape
      simp only [ShardedMatchingEngine.log, ShardedMatchingEngine.setWal, cancelled, bind, Except.bind]
      have entered : entryOf state (.cancel cmd number) = some (.command (.cancel cmd)) := by
        simp [entryOf, inOrder]
      exact ⟨_, _, rfl, shardStep_command counters rfl entered applied⟩
  | replace cmd number =>
    rw [ShardedMatchingEngine.apply, ShardedMatchingEngine.replace]
    rcases validateIngress_cases state cmd.symbol number cmd.orderId with
      ⟨stale, refused⟩ | ⟨inOrder, counters, passed⟩
    · rw [refused]
      have unlogged : entryOf state (.replace cmd number) = none := by simp [entryOf, stale]
      exact ⟨_, _, rfl, shardStep_stale rfl unlogged cmd.orderId _⟩
    · rw [passed]
      obtain ⟨engine, outcome, ran, -⟩ := apply_wellFormed (sound (shardOf cmd.symbol)) (.replace cmd)
      have applied := ran
      rw [MatchingEngine.apply] at ran
      simp only [ShardedMatchingEngine.log, ShardedMatchingEngine.setWal, ran, bind, Except.bind]
      have entered : entryOf state (.replace cmd number) = some (.command (.replace cmd)) := by
        simp [entryOf, inOrder]
      exact ⟨_, _, rfl, shardStep_command counters rfl entered applied⟩
  | snapshotAll => exact ⟨_, _, rfl, fun shard => .snapshot rfl⟩

/-- A written command is the accepted one, and of this shard. -/
theorem accepted_of_entry {shard : Fin shardCount} {call : Call} {issued : Command}
    (entered : entryAt state shard call = some (.command issued)) :
    issued ∈ state.accepted call ∧ shardOf issued.symbol = shard := by
  rw [entryAt, Option.ite_none_right_eq_some] at entered
  obtain ⟨here, entered⟩ := entered
  cases call with
  | add cmd number =>
    rw [entryOf, Option.ite_none_right_eq_some] at entered
    obtain ⟨inOrder, entered⟩ := entered
    cases checked : checkAdd state.limits cmd with
    | some reason => simp [checked] at entered
    | none =>
      simp only [checked, Option.some.injEq, Entry.command.injEq] at entered
      subst entered
      exact ⟨by simp [ShardedMatchingEngine.accepted, inOrder, checked], Option.some.inj here⟩
  | cancel cmd number =>
    rw [entryOf, Option.ite_none_right_eq_some] at entered
    obtain ⟨inOrder, entered⟩ := entered
    simp only [Option.some.injEq, Entry.command.injEq] at entered
    subst entered
    exact ⟨by simp [ShardedMatchingEngine.accepted, inOrder], Option.some.inj here⟩
  | replace cmd number =>
    rw [entryOf, Option.ite_none_right_eq_some] at entered
    obtain ⟨inOrder, entered⟩ := entered
    simp only [Option.some.injEq, Entry.command.injEq] at entered
    subst entered
    exact ⟨by simp [ShardedMatchingEngine.accepted, inOrder], Option.some.inj here⟩
  | snapshotAll => simp [entryOf] at entered

/-! ## The moments of a run -/

/-- How many entries the calls write to the log of a shard. -/
def loggedOn (shard : Fin shardCount) : ShardedMatchingEngine shardCount → List Call → Nat
  | _, [] => 0
  | state, call :: calls => (entryAt state shard call).toList.length +
      match state.apply call with
      | .ok (next, _) => loggedOn shard next calls
      | .error _ => 0

theorem loggedOn_concat {shard : Fin shardCount} {calls : List Call} {outcomes : List Outcome} (call : Call)
    (ran : run ShardedMatchingEngine.apply state calls = .ok (next, outcomes)) :
    loggedOn shard state (calls ++ [call]) =
      loggedOn shard state calls + (entryAt next shard call).toList.length := by
  induction calls generalizing state outcomes with
  | nil =>
    cases ran
    simp only [List.nil_append, loggedOn]
    cases next.apply call <;> simp
  | cons first calls ih =>
    obtain ⟨mid, outcome, later, taken, rest, -⟩ := Runs.run_cons_inv ran
    rw [List.cons_append, loggedOn, loggedOn]
    simp only [taken, ih rest, Nat.add_assoc]

/-- The engine is a twin of what the shard was at some moment of the run, after
which the calls wrote at most so many entries to its log. -/
structure Moment (start : ShardedMatchingEngine shardCount) (calls : List Call) (shard : Fin shardCount)
    (rebuilt : MatchingEngine) (missed : Nat) : Prop where
  wellFormed : WellFormed rebuilt
  reached : ∃ front rest earlier outcomes, calls = front ++ rest ∧
    run ShardedMatchingEngine.apply start front = .ok (earlier, outcomes) ∧
    WellFormed (earlier.engines shard) ∧ Twins rebuilt (earlier.engines shard) ∧
    loggedOn shard earlier rest ≤ missed

variable {start : ShardedMatchingEngine shardCount} {shard : Fin shardCount} {calls : List Call}
  {outcomes : List Outcome} {rebuilt live after : MatchingEngine} {missed : Nat}

/-- The present is a moment. -/
theorem moment_now (ran : run ShardedMatchingEngine.apply start calls = .ok (next, outcomes))
    (wf : WellFormed rebuilt) (live : WellFormed (next.engines shard)) (twins : Twins rebuilt (next.engines shard)) :
    Moment start calls shard rebuilt 0 where
  wellFormed := wf
  reached := ⟨calls, [], next, outcomes, (List.append_nil calls).symm, ran, live, twins, le_rfl⟩

/-- A moment of the run so far is one of the run with another call, which may
have written an entry since. -/
theorem moment_concat (ran : run ShardedMatchingEngine.apply start calls = .ok (state, outcomes))
    (moment : Moment start calls shard rebuilt missed) (call : Call) :
    Moment start (calls ++ [call]) shard rebuilt (missed + (entryAt state shard call).toList.length) where
  wellFormed := moment.wellFormed
  reached := by
    obtain ⟨front, rest, earlier, before, split, reached, sound, twins, few⟩ := moment.reached
    refine ⟨front, rest ++ [call], earlier, before, by rw [split, List.append_assoc], reached, sound, twins, ?_⟩
    rw [split] at ran
    obtain ⟨mid, before', later, reached', behind, -⟩ := Runs.run_append_inv ran
    rw [reached] at reached'
    cases reached'
    rw [loggedOn_concat call behind]
    exact Nat.add_le_add_right few _

theorem moment_weaken {more : Nat} (moment : Moment start calls shard rebuilt missed) (le : missed ≤ more) :
    Moment start calls shard rebuilt more where
  wellFormed := moment.wellFormed
  reached := by
    obtain ⟨front, rest, earlier, before, split, reached, sound, twins, few⟩ := moment.reached
    exact ⟨front, rest, earlier, before, split, reached, sound, twins, few.trans le⟩

/-! ## Recoverable shards -/

/-- Every front of the entries leads to a moment of the run, at most as many
entries ago as are missing. -/
def FrontsLead (start : ShardedMatchingEngine shardCount) (calls : List Call) (shard : Fin shardCount)
    (base : MatchingEngine) (entries : List Entry) : Prop :=
  ∀ kept lost, entries = kept ++ lost →
    ∃ rebuilt, replayAll base kept = .ok rebuilt ∧ Moment start calls shard rebuilt lost.length

/-- The entries lead from the base to a twin of the live engine. -/
def LeadTo (live base : MatchingEngine) (entries : List Entry) : Prop :=
  ∃ rebuilt, replayAll base entries = .ok rebuilt ∧ WellFormed rebuilt ∧ Twins rebuilt live

/-- What a shard's store promises for a crash. -/
structure Recoverable (start : ShardedMatchingEngine shardCount) (calls : List Call) (shard : Fin shardCount)
    (wal : WalStore) (live : MatchingEngine) : Prop where
  wellFormed : WellFormed live
  indexed : Indexed live
  history : ∃ base entries, Loads wal.files.snapshot base ∧
    Staged wal (entries.map Entry.record) kCommitBatch ∧
    (∀ entry ∈ entries, NoFrontCollides entry.record) ∧ LeadTo live base entries ∧
    FrontsLead start calls shard base entries

/-- What an entry does to the live engine, its replay does to a twin. -/
theorem leadTo_written {base : MatchingEngine} {entries : List Entry} {entry : Entry} (leads : LeadTo live base entries)
    (sound : WellFormed live) (written : Written live entry after) : LeadTo after base (entries ++ [entry]) := by
  obtain ⟨rebuilt, replayed, wf, twins⟩ := leads
  cases written with
  | @command issued _ outcome ran =>
    obtain ⟨rebuilt', outcome', ran', wf'⟩ := apply_wellFormed wf issued
    refine ⟨rebuilt', ?_, wf', (twins.apply wf sound ran' ran).1⟩
    rw [replayAll_append, replayed]
    simp only [Except.bind, Entry.replay, ran']
    rfl
  | riskReject cmd reason =>
    refine ⟨rebuilt, ?_, wf, twins.congr rfl rfl rfl rfl⟩
    rw [replayAll_append, replayed]
    rfl

/-- A list with one more element is cut before that element or not at all. -/
theorem cut_concat {α : Type} {items kept lost : List α} {item : α} (split : items ++ [item] = kept ++ lost) :
    (kept = items ++ [item] ∧ lost = []) ∨ ∃ others, lost = others ++ [item] ∧ items = kept ++ others := by
  rcases List.eq_nil_or_concat lost with rfl | ⟨others, last, rfl⟩
  · exact .inl ⟨by simpa using split.symm, rfl⟩
  · rw [List.concat_eq_append, ← List.append_assoc] at split
    obtain ⟨same, last_⟩ := List.append_inj' split rfl
    cases last_
    exact .inr ⟨others, List.concat_eq_append, same⟩

theorem frontsLead_concat {base : MatchingEngine} {entries : List Entry} {call : Call}
    (ran : run ShardedMatchingEngine.apply start calls = .ok (state, outcomes))
    (lead : FrontsLead start calls shard base entries) (unlogged : entryAt state shard call = none) :
    FrontsLead start (calls ++ [call]) shard base entries := by
  intro kept lost split
  obtain ⟨rebuilt, replayed, moment⟩ := lead kept lost split
  have moved := moment_concat ran moment call
  rw [unlogged] at moved
  exact ⟨rebuilt, replayed, moved⟩

theorem frontsLead_written {base : MatchingEngine} {entries : List Entry} {entry : Entry} {call : Call}
    {later : List Outcome}
    (ran : run ShardedMatchingEngine.apply start calls = .ok (state, outcomes))
    (lead : FrontsLead start calls shard base entries) (entered : entryAt state shard call = some entry)
    (ran' : run ShardedMatchingEngine.apply start (calls ++ [call]) = .ok (next, later))
    (sound : WellFormed (next.engines shard)) (leads : LeadTo (next.engines shard) base (entries ++ [entry])) :
    FrontsLead start (calls ++ [call]) shard base (entries ++ [entry]) := by
  intro kept lost split
  rcases cut_concat split with ⟨rfl, rfl⟩ | ⟨others, rfl, shape⟩
  · obtain ⟨rebuilt, replayed, wf, twins⟩ := leads
    exact ⟨rebuilt, replayed, moment_now ran' wf sound twins⟩
  · obtain ⟨rebuilt, replayed, moment⟩ := lead kept others shape
    have moved := moment_concat ran moment call
    rw [entered] at moved
    exact ⟨rebuilt, replayed, by simpa using moved⟩

/-- No line a call writes has a front with its checksum. -/
def LineApart (state : ShardedMatchingEngine shardCount) (call : Call) : Prop :=
  ∀ entry ∈ entryOf state call, NoFrontCollides entry.record

theorem entryOf_of_entryAt {call : Call} {entry : Entry} (entered : entryAt state shard call = some entry) :
    entryOf state call = some entry :=
  (Option.ite_none_right_eq_some.mp entered).2

/-- The log of a shard after an entry. -/
theorem append_staged {wal : WalStore} {base : MatchingEngine} {entries : List Entry} (entry : Entry)
    (loads : Loads wal.files.snapshot base) (staged : Staged wal (entries.map Entry.record) kCommitBatch) :
    Loads (wal.append entry.record).files.snapshot base ∧
      Staged (wal.append entry.record) ((entries ++ [entry]).map Entry.record) kCommitBatch := by
  obtain ⟨-, snapshot, -⟩ := append_bytes staged.isOpen entry.record
  refine ⟨by rw [snapshot]; exact loads, ?_⟩
  have grown := staged_call staged (.append entry.record)
  simpa [call, appended] using grown

theorem saveSnapshot_staged (wal : WalStore) (snap : Json) :
    Staged (wal.saveSnapshot snap) [] kCommitBatch :=
  ⟨rfl, [], [], rfl, rfl, rfl, rfl, by decide⟩

/-- A snapshot: the log is empty, and the snapshot leads to the present. -/
theorem recoverable_snapshot {wal : WalStore} {call : Call}
    (held : Recoverable start calls shard wal live) (engine : next.engines shard = live)
    (ran : run ShardedMatchingEngine.apply start (calls ++ [call]) = .ok (next, outcomes)) :
    Recoverable start (calls ++ [call]) shard (wal.saveSnapshot live.snapshot) live := by
  subst engine
  obtain ⟨restored, loaded, wf, twins⟩ := SnapshotRestore.snapshot_restores held.wellFormed held.indexed {}
  refine ⟨held.wellFormed, held.indexed, restored, [], .document (snapshot_doubleFree _) loaded,
    saveSnapshot_staged wal _, by simp, ⟨restored, rfl, wf, twins⟩, fun kept lost split => ?_⟩
  obtain ⟨rfl, rfl⟩ := List.append_eq_nil_iff.mp split.symm
  exact ⟨restored, rfl, moment_now ran wf held.wellFormed twins⟩

/-- A call that writes nothing and leaves the orders alone. -/
theorem recoverable_unlogged {wal : WalStore} {call : Call}
    (held : Recoverable start calls shard wal live) (books : after.books = live.books)
    (index : after.index = live.index) (nodes : after.nodes = live.nodes)
    (ran : run ShardedMatchingEngine.apply start calls = .ok (state, outcomes))
    (unlogged : entryAt state shard call = none) : Recoverable start (calls ++ [call]) shard wal after := by
  have levels := EngineSteps.levels_congr books
  obtain ⟨base, entries, loads, staged, distinct, ⟨rebuilt, replayed, wf, twins⟩, fronts⟩ := held.history
  exact ⟨wellFormed_congr held.wellFormed levels index nodes, indexed_congr held.indexed levels index, base, entries,
    loads, staged, distinct, ⟨rebuilt, replayed, wf, twins.congr rfl books rfl index⟩,
    frontsLead_concat ran fronts unlogged⟩

theorem wellFormed_written {entry : Entry} (sound : WellFormed live) (written : Written live entry after) :
    WellFormed after := by
  cases written with
  | command ran => exact wellFormed_of_apply sound ran
  | riskReject cmd reason => exact wellFormed_congr sound (fun _ _ => rfl) rfl rfl

theorem indexed_written {entry : Entry} (sound : WellFormed live) (indexed : Indexed live)
    (written : Written live entry after) (fresh : ∀ issued, entry = .command issued → NoLiveId live issued) :
    Indexed after := by
  cases written with
  | command ran => exact apply_indexed sound indexed (fresh _ rfl) ran
  | riskReject cmd reason => exact indexed_congr indexed (fun _ _ => rfl) rfl

/-- A call that writes an entry. -/
theorem recoverable_logged {call : Call} {entry : Entry} {later : List Outcome}
    (ran : run ShardedMatchingEngine.apply start calls = .ok (state, outcomes))
    (held : Recoverable start calls shard (state.wals shard) (state.engines shard))
    (entered : entryAt state shard call = some entry)
    (written : Written (state.engines shard) entry (next.engines shard))
    (ran' : run ShardedMatchingEngine.apply start (calls ++ [call]) = .ok (next, later))
    (fresh : FreshCall state call) (apart : LineApart state call) :
    Recoverable start (calls ++ [call]) shard ((state.wals shard).append entry.record) (next.engines shard) := by
  obtain ⟨base, entries, loads, staged, distinct, leads, fronts⟩ := held.history
  obtain ⟨loads', staged'⟩ := append_staged entry loads staged
  have sound := wellFormed_written held.wellFormed written
  have leads' := leadTo_written leads held.wellFormed written
  refine ⟨sound, ?_, base, entries ++ [entry], loads', staged', ?_, leads',
    frontsLead_written ran fronts entered ran' sound leads'⟩
  · refine indexed_written held.wellFormed held.indexed written fun issued same => ?_
    obtain ⟨passed, here⟩ := accepted_of_entry (same ▸ entered)
    rw [← here]
    exact fresh issued passed
  · intro other member
    rcases List.mem_append.mp member with before | last
    · exact distinct other before
    · rw [List.mem_singleton.mp last]
      exact apart entry (entryOf_of_entryAt entered)

/-- Every call keeps the promise of every shard. -/
theorem recoverable_step {call : Call} {outcome : Outcome}
    (ran : run ShardedMatchingEngine.apply start calls = .ok (state, outcomes))
    (taken : state.apply call = .ok (next, outcome))
    (step : ShardStep state shard call (next.wals shard) (next.engines shard))
    (held : Recoverable start calls shard (state.wals shard) (state.engines shard))
    (fresh : FreshCall state call) (apart : LineApart state call) :
    Recoverable start (calls ++ [call]) shard (next.wals shard) (next.engines shard) := by
  have ran' := Runs.run_concat ran taken
  generalize wals : next.wals shard = wal at step
  generalize engines : next.engines shard = engine at step
  cases step with
  | snapshot _ => exact recoverable_snapshot held engines ran'
  | logged entered written =>
    rw [← engines] at written ⊢
    exact recoverable_logged ran held entered written ran' fresh apart
  | untouched unlogged => exact recoverable_unlogged held rfl rfl rfl ran unlogged
  | rejected unlogged symbol orderId reason => exact recoverable_unlogged held rfl rfl rfl ran unlogged

/-! ## Runs -/

/-- An engine on an empty directory. -/
def fresh (shardCount : Nat) [NeZero shardCount] (limits : RiskLimits) : ShardedMatchingEngine shardCount :=
  .create limits fun _ => {}

theorem recoverable_new (limits : RiskLimits) (shard : Fin shardCount) :
    Recoverable (fresh shardCount limits) [] shard (.open_ {}) {} where
  wellFormed := wellFormed_empty
  indexed := indexed_empty
  history := by
    refine ⟨{}, [], .nothing, ⟨rfl, [], [], rfl, rfl, rfl, rfl, by decide⟩, by simp,
      ⟨{}, rfl, wellFormed_empty, twins_empty⟩, fun kept lost split => ?_⟩
    obtain ⟨rfl, rfl⟩ := List.append_eq_nil_iff.mp split.symm
    have now : run ShardedMatchingEngine.apply (fresh shardCount limits) [] = .ok (fresh shardCount limits, []) := rfl
    exact ⟨{}, rfl, moment_now now wellFormed_empty wellFormed_empty twins_empty⟩

/-- Every run succeeds and keeps the promise of every shard. -/
theorem runs_recoverable (limits : RiskLimits) (calls : List Call)
    (meets : Meets ShardedMatchingEngine.apply (fun state call => FreshCall state call ∧ LineApart state call)
      (fresh shardCount limits) calls) :
    ∃ state outcomes, run ShardedMatchingEngine.apply (fresh shardCount limits) calls = .ok (state, outcomes) ∧
      ∀ shard, Recoverable (fresh shardCount limits) calls shard (state.wals shard) (state.engines shard) := by
  induction calls using List.reverseRecOn with
  | nil => exact ⟨_, _, rfl, recoverable_new limits⟩
  | append_singleton calls call ih =>
    obtain ⟨state, outcomes, ran, held⟩ := ih (Runs.meets_front meets)
    obtain ⟨fresh, apart⟩ := ((Runs.meets_append ran).mp meets).2.1
    obtain ⟨next, outcome, taken, steps⟩ := apply_shardStep (fun shard => (held shard).wellFormed) call
    exact ⟨next, _, Runs.run_concat ran taken, fun shard =>
      recoverable_step ran taken (steps shard) (held shard) fresh apart⟩

/-! ## Crashes -/

/-- A store opened on what the crash left leads to a moment of the run, with at
most a window of entries missing. -/
theorem rebuild_crashed {wal : WalStore} {base : MatchingEngine} {entries : List Entry} {begun : Option Entry}
    (loads : Loads wal.files.snapshot base) (staged : Staged wal (entries.map Entry.record) kCommitBatch)
    (distinct : ∀ entry ∈ entries ++ begun.toList, NoFrontCollides entry.record)
    (fronts : FrontsLead start calls shard base (entries ++ begun.toList)) (reached : Nat) :
    ∃ reread rebuilt, rebuild (.open_ (crashed (atCrash wal (begun.map Entry.record)) reached)) =
      .ok (reread, rebuilt) ∧ Moment start calls shard rebuilt kCommitBatch := by
  have shape : entries.map Entry.record ++ (begun.map Entry.record).toList =
      (entries ++ begun.toList).map Entry.record := by
    cases begun <;> simp
  have written := staged_atCrash staged (begun.map Entry.record)
  rw [shape] at written
  have apart : ∀ record ∈ (entries ++ begun.toList).map Entry.record, NoFrontCollides record := by
    intro record member
    obtain ⟨entry, inside, rfl⟩ := List.mem_map.mp member
    exact distinct entry inside
  obtain ⟨reread, kept, lost, parts, few, read, -⟩ :=
    crash_recovers written (records_doubleFree _) apart reached
  obtain ⟨keptEntries, lostEntries, split, rfl, rfl⟩ := List.map_eq_append_iff.mp parts
  obtain ⟨rebuilt, replayed, moment⟩ := fronts keptEntries lostEntries split
  rw [List.length_map] at few
  refine ⟨reread, rebuilt, ?_, moment_weaken moment (Nat.le_of_lt_succ few)⟩
  have left : Loads (WalStore.open_ (crashed (atCrash wal (begun.map Entry.record)) reached)).files.snapshot base := by
    cases begun <;> exact loads
  unfold rebuild
  rcases loads_cases left with ⟨found, rfl⟩ | ⟨snap, found, loaded⟩
  · simp only [found, read, applyRecords, replayed, bind, Except.bind, Except.mapError]
  · simp only [found, read, applyRecords, loaded, replayed, bind, Except.bind, Except.mapError]

/-- A call that writes an entry is the step that writes it. -/
theorem written_of_shardStep {call : Call} {entry : Entry} {wal : WalStore}
    (step : ShardStep state shard call wal after) (entered : entryAt state shard call = some entry) :
    Written (state.engines shard) entry after := by
  cases step with
  | snapshot taken =>
    subst taken
    simp [entryAt, entryOf] at entered
  | logged entered' written =>
    rw [entered] at entered'
    cases entered'
    exact written
  | untouched unlogged => simp [unlogged] at entered
  | rejected unlogged symbol orderId reason => simp [unlogged] at entered

/-- The files of a shard after a crash between two calls, or in a call that has
staged its line and has not returned, with a front of the staged bytes written. -/
def leftBehind (state : ShardedMatchingEngine shardCount) (begun : Option Call) (reached : Fin shardCount → Nat)
    (shard : Fin shardCount) : Files :=
  crashed (atCrash (state.wals shard) ((begun.bind (entryAt state shard)).map Entry.record)) (reached shard)

/-- What is left of a recoverable shard leads to a moment of the run. -/
theorem leftBehind_moment (begun : Option Call)
    (ran : run ShardedMatchingEngine.apply start calls = .ok (state, outcomes))
    (held : ∀ shard, Recoverable start calls shard (state.wals shard) (state.engines shard))
    (meets : Meets ShardedMatchingEngine.apply (fun state call => FreshCall state call ∧ LineApart state call)
      state begun.toList) (reached : Fin shardCount → Nat) (shard : Fin shardCount) :
    ∃ reread rebuilt, rebuild (.open_ (leftBehind state begun reached shard)) = .ok (reread, rebuilt) ∧
      Moment start (calls ++ begun.toList) shard rebuilt kCommitBatch := by
  obtain ⟨base, entries, loads, staged, distinct, leads, fronts⟩ := (held shard).history
  refine rebuild_crashed loads staged ?_ ?_ (reached shard)
  · intro entry member
    rcases List.mem_append.mp member with before | last
    · exact distinct entry before
    · obtain ⟨call, rfl, entered⟩ := Option.bind_eq_some_iff.mp (Option.mem_toList.mp last)
      exact meets.1.2 entry (entryOf_of_entryAt entered)
  · cases begun with
    | none => simpa using fronts
    | some call =>
      obtain ⟨next, outcome, taken, steps⟩ := apply_shardStep (fun shard => (held shard).wellFormed) call
      have ran' := Runs.run_concat ran taken
      cases entered : entryAt state shard call with
      | none => simpa [entered] using frontsLead_concat ran fronts entered
      | some entry =>
        have written := written_of_shardStep (steps shard) entered
        have sound := (held shard).wellFormed
        simpa [entered] using frontsLead_written ran fronts entered ran' (wellFormed_written sound written)
          (leadTo_written leads sound written)

/-- A new engine on these files replays the shard to the books and the index
that it had after some front of the calls, and the calls after it wrote at most
a window of entries to its log. -/
def ComesBack (start : ShardedMatchingEngine shardCount) (calls : List Call) (files : Fin shardCount → Files)
    (limits : RiskLimits) (shard : Fin shardCount) : Prop :=
  ∃ restarted rebuilt front rest earlier outcomes,
    (ShardedMatchingEngine.create limits files).replayShard shard = .ok (restarted, rebuilt) ∧
    calls = front ++ rest ∧ run ShardedMatchingEngine.apply start front = .ok (earlier, outcomes) ∧
    SameBooks rebuilt (earlier.engines shard) ∧
    (∀ orderId, rebuilt.whereIs orderId = (earlier.engines shard).whereIs orderId) ∧
    loggedOn shard earlier rest ≤ kCommitBatch

/-- A shard whose files lead to a moment of the run comes back as it was then. -/
theorem comesBack_of_moment {files : Fin shardCount → Files} {reread : WalStore}
    (recovered : rebuild (.open_ (files shard)) = .ok (reread, rebuilt))
    (moment : Moment start calls shard rebuilt kCommitBatch) (limits : RiskLimits) :
    ComesBack start calls files limits shard := by
  obtain ⟨wf, front, rest, earlier, before, split, reached, sound, twins, few⟩ := moment
  have replayed : (ShardedMatchingEngine.create limits files).replayShard shard =
      .ok ((ShardedMatchingEngine.create limits files).setWal shard reread, rebuilt) := by
    simp only [ShardedMatchingEngine.replayShard, ShardedMatchingEngine.create, recovered, bind, Except.bind]
  exact ⟨_, rebuilt, front, rest, earlier, before, replayed, split, reached, twins.sameBooks wf sound,
    twins.whereIs_eq wf sound, few⟩

/-- Whatever has been called, and wherever the crash comes, every shard comes
back as it was at some moment, at most a window of entries ago. -/
theorem crash_returns_to_a_moment (limits limits' : RiskLimits) (calls : List Call) (begun : Option Call)
    (reached : Fin shardCount → Nat)
    (meets : Meets ShardedMatchingEngine.apply (fun state call => FreshCall state call ∧ LineApart state call)
      (fresh shardCount limits) (calls ++ begun.toList)) :
    ∃ state outcomes, run ShardedMatchingEngine.apply (fresh shardCount limits) calls = .ok (state, outcomes) ∧
      ∀ shard, ComesBack (fresh shardCount limits) (calls ++ begun.toList) (leftBehind state begun reached)
        limits' shard := by
  obtain ⟨state, outcomes, ran, held⟩ := runs_recoverable limits calls (Runs.meets_front meets)
  refine ⟨state, outcomes, ran, fun shard => ?_⟩
  have last := ((Runs.meets_append ran).mp meets).2
  obtain ⟨reread, rebuilt, recovered, moment⟩ := leftBehind_moment begun ran held last reached shard
  exact comesBack_of_moment recovered moment limits'

/-- Whether a front of a record collides can be tested. -/
instance (record : Json) : Decidable (NoFrontCollides record) :=
  decidable_of_iff (∀ size < record.dump.length, crc32 (record.dump.take size) ≠ crc32 record.dump)
    ⟨noFrontCollides_of_sizes, fun distinct size shorter =>
      distinct _ (List.take_prefix _ _) fun same => by
        have sizes := congrArg List.length same
        rw [List.length_take] at sizes
        omega⟩

instance (state : ShardedMatchingEngine shardCount) (call : Call) : Decidable (LineApart state call) :=
  inferInstanceAs (Decidable (∀ entry ∈ entryOf state call, NoFrontCollides entry.record))

/-- A bid, a snapshot and a cancel, then a crash in another cancel with half of
its line in the file. -/
theorem half_a_cancel_comes_back :
    ∃ state outcomes, run ShardedMatchingEngine.apply (fresh 2 {})
        [.add { symbol := ascii "S", orderId := 1, participantId := ascii "A", priceTicks := 9,
                quantity := 5 } (some 7),
          .snapshotAll, .cancel { symbol := ascii "S", orderId := 1 } none] = .ok (state, outcomes) ∧
      ∀ shard, ComesBack (fresh 2 {})
        ([.add { symbol := ascii "S", orderId := 1, participantId := ascii "A", priceTicks := 9,
                 quantity := 5 } (some 7),
          .snapshotAll, .cancel { symbol := ascii "S", orderId := 1 } none] ++
            [.cancel { symbol := ascii "S", orderId := 2 } (some 8)])
        (leftBehind state (some (.cancel { symbol := ascii "S", orderId := 2 } (some 8))) fun _ => 110) {} shard :=
  crash_returns_to_a_moment {} {} _ (some (.cancel { symbol := ascii "S", orderId := 2 } (some 8)))
    (fun _ => 110) (by decide +kernel)

end Exchange.CrashRecovery
