import Exchange.Runs
import Exchange.ShardedSteps
import Exchange.SnapshotRestore
import Exchange.WalLog

/-! Replaying a shard. The bytes of a log stand for a list of entries, each a
command or a risk rejection, and a snapshot file for the engine it loads to. A
store and a live engine agree when the entries, replayed on that engine, give a
twin of the live one; every call keeps every shard in agreement. -/
namespace Exchange.ShardReplay
open EngineInvariant OrderIndex JsonRoundTrip WalLog ShardedSteps
open MatchingEngine (levelJson bookJson serializeSide)
open ShardedMatchingEngine (rebuild shardOf)

/-! ## Entries -/

/-- What a line of a log says. -/
inductive Entry where
  | command (issued : Command)
  | riskReject (cmd : AddOrder) (reason : Bytes)

def Entry.record : Entry → Json
  | .command issued => commandRecord issued
  | .riskReject cmd reason => riskRecord cmd reason

/-- What replaying an entry does: a command is issued again, a rejection is not. -/
def Entry.replay (engine : MatchingEngine) : Entry → Except Fault MatchingEngine
  | .command issued => (engine.apply issued).map Prod.fst
  | .riskReject _ _ => .ok engine

def replayAll (engine : MatchingEngine) (entries : List Entry) : Except Fault MatchingEngine :=
  entries.foldlM Entry.replay engine

theorem applyRecord_add (engine : MatchingEngine) (cmd : AddOrder) :
    applyRecord engine (record "add" (serializeAdd cmd)) = (engine.add cmd).map Prod.fst := by
  have shape : applyRecord engine (record "add" (serializeAdd cmd)) = (engine.add { cmd with
      side := sideFromString cmd.side.toString
      timeInForce := tifFromString cmd.timeInForce.toString
      stp := stpFromString cmd.stp.toString }).bind fun result => .ok result.1 := rfl
  rw [shape, sideFromString_toString, tifFromString_toString, stpFromString_toString]
  cases engine.add cmd <;> rfl

theorem applyRecord_cancel (engine : MatchingEngine) (cmd : CancelOrder) :
    applyRecord engine (record "cancel" (serializeCancel cmd)) =
      (engine.apply (.cancel cmd)).map Prod.fst := by
  have shape : applyRecord engine (record "cancel" (serializeCancel cmd)) =
      (engine.cancel cmd).bind fun result => .ok result.1 := rfl
  rw [shape, MatchingEngine.apply]
  cases engine.cancel cmd <;> rfl

theorem applyRecord_replace (engine : MatchingEngine) (cmd : ReplaceOrder) :
    applyRecord engine (record "replace" (serializeReplace cmd)) = (engine.replace cmd).map Prod.fst := by
  have shape : applyRecord engine (record "replace" (serializeReplace cmd)) = (engine.replace { cmd with
      timeInForce := tifFromString cmd.timeInForce.toString }).bind fun result => .ok result.1 := rfl
  rw [shape, tifFromString_toString]
  cases engine.replace cmd <;> rfl

/-- Decoding a record undoes encoding it. -/
theorem applyRecord_record (engine : MatchingEngine) (entry : Entry) :
    applyRecord engine entry.record = entry.replay engine := by
  cases entry with
  | command command =>
    cases command with
    | add cmd => exact applyRecord_add engine cmd
    | cancel cmd => exact applyRecord_cancel engine cmd
    | replace cmd => exact applyRecord_replace engine cmd
  | riskReject cmd reason => rfl

theorem applyRecords (engine : MatchingEngine) (entries : List Entry) :
    (entries.map Entry.record).foldlM applyRecord engine = replayAll engine entries := by
  rw [replayAll, List.foldlM_map]
  simp only [applyRecord_record]

theorem record_doubleFree (entry : Entry) : doubleFree entry.record = true := by
  cases entry with
  | command command => cases command <;> rfl
  | riskReject cmd reason => rfl

theorem records_doubleFree (entries : List Entry) :
    ∀ record ∈ entries.map Entry.record, doubleFree record = true := by
  intro record member
  obtain ⟨entry, -, rfl⟩ := List.mem_map.mp member
  exact record_doubleFree entry

/-! ## Snapshots hold no doubles -/

theorem itemsDoubleFree_map {α : Type} (f : α → Json) (each : ∀ item, doubleFree (f item) = true)
    (items : List α) : itemsDoubleFree (items.map f) = true := by
  induction items with
  | nil => rfl
  | cons item rest ih => simp [itemsDoubleFree, each, ih]

theorem membersDoubleFree_map {α : Type} (f : α → Bytes × Json)
    (each : ∀ item, doubleFree (f item).2 = true) (items : List α) :
    membersDoubleFree (items.map f) = true := by
  induction items with
  | nil => rfl
  | cons item rest ih =>
    rw [List.map_cons, membersDoubleFree, each, ih]
    rfl

theorem serializeSide_doubleFree (book : Book) (side : Side) : doubleFree (serializeSide book side) = true := by
  rw [serializeSide, doubleFree]
  refine itemsDoubleFree_map levelJson (fun entry => ?_) _
  simp only [levelJson, doubleFree, membersDoubleFree, Bool.true_and, Bool.and_true]
  exact itemsDoubleFree_map _ (fun order => rfl) _

theorem listing_doubleFree {engine : MatchingEngine} {snap : Json} (taken : engine.IsSnapshot snap) :
    doubleFree snap = true := by
  obtain ⟨books, -, rfl⟩ := taken
  simp only [MatchingEngine.snapshotListing, doubleFree, membersDoubleFree, Bool.true_and, Bool.and_true]
  refine membersDoubleFree_map _ (fun entry => ?_) _
  simp [bookJson, doubleFree, membersDoubleFree, serializeSide_doubleFree]

theorem snapshot_doubleFree (engine : MatchingEngine) : doubleFree engine.snapshot = true :=
  listing_doubleFree engine.isSnapshot_snapshot

/-! ## Stores -/

/-- The engine a snapshot file loads to; without one, the empty engine. -/
inductive Loads : Option Bytes → MatchingEngine → Prop where
  | nothing : Loads none {}
  | document {snap : Json} {base : MatchingEngine} (plain : doubleFree snap = true)
      (loaded : ({} : MatchingEngine).loadSnapshot snap = .ok base) : Loads (some snap.dump) base

/-- The store's files and its staged lines hold these entries after that engine. -/
structure Holds (wal : WalStore) (base : MatchingEngine) (entries : List Entry) : Prop where
  isOpen : wal.isOpen = true
  logged : wal.files.wal ++ wal.pending = logOf (entries.map Entry.record)
  loads : Loads wal.files.snapshot base

variable {wal wal' : WalStore} {base live live' next rebuilt : MatchingEngine} {entries : List Entry}

theorem holds_flush (holds : Holds wal base entries) :
    Holds wal.flush base entries ∧ wal.flush.files.wal = logOf (entries.map Entry.record) := by
  rw [flush_eq wal holds.isOpen, holds.logged]
  exact ⟨⟨holds.isOpen, by simp, holds.loads⟩, rfl⟩

theorem holds_append (holds : Holds wal base entries) (entry : Entry) :
    Holds (wal.append entry.record) base (entries ++ [entry]) := by
  obtain ⟨isOpen, snapshot, bytes⟩ := append_bytes holds.isOpen entry.record
  refine ⟨isOpen, ?_, by rw [snapshot]; exact holds.loads⟩
  rw [bytes, holds.logged]
  simp [logOf]

theorem holds_saveSnapshot {snap : Json} (plain : doubleFree snap = true)
    (loaded : ({} : MatchingEngine).loadSnapshot snap = .ok base) (wal : WalStore) :
    Holds (wal.saveSnapshot snap) base [] :=
  ⟨rfl, rfl, .document plain loaded⟩

/-- What reading a snapshot file gives. -/
theorem loads_cases (loads : Loads wal.files.snapshot base) :
    (wal.loadSnapshot = .ok none ∧ base = {}) ∨
    ∃ snap, wal.loadSnapshot = .ok (some snap) ∧ ({} : MatchingEngine).loadSnapshot snap = .ok base := by
  unfold WalStore.loadSnapshot
  generalize wal.files.snapshot = file at loads
  cases loads with
  | nothing => exact .inl ⟨rfl, rfl⟩
  | @document snap base plain loaded =>
    refine .inr ⟨snap, ?_, loaded⟩
    simp only [dump_ne_nil snap plain, parse_dump snap plain, bind, Except.bind, ↓reduceIte]

/-- Recovery replays the entries on the loaded engine. -/
theorem rebuild_eq (holds : Holds wal base entries) :
    rebuild wal = ((replayAll base entries).mapError .engine).map fun rebuilt => (wal.flush, rebuilt) := by
  have replayed : wal.replayCommands = .ok (wal.flush, entries.map Entry.record) := by
    simp only [WalStore.replayCommands, (holds_flush holds).2,
      replayLines_log _ (records_doubleFree entries), bind, Except.bind]
  unfold rebuild
  rcases loads_cases holds.loads with ⟨read, rfl⟩ | ⟨snap, read, loaded⟩
  · simp only [read, replayed, applyRecords, bind, Except.bind, Except.mapError]
    cases replayAll {} entries <;> rfl
  · simp only [read, replayed, applyRecords, loaded, bind, Except.bind, Except.mapError]
    cases replayAll base entries <;> rfl

/-! ## Agreement -/

/-- A sound live engine, and a store that leads to a twin of it. -/
structure Agrees (wal : WalStore) (live : MatchingEngine) : Prop where
  wellFormed : WellFormed live
  indexed : Indexed live
  recovers : ∃ base entries rebuilt, Holds wal base entries ∧ replayAll base entries = .ok rebuilt ∧
    WellFormed rebuilt ∧ Twins rebuilt live

theorem holds_new : Holds (.open_ {}) {} [] := ⟨rfl, rfl, .nothing⟩

theorem twins_empty : Twins {} {} :=
  SnapshotRestore.twins_of_indexed wellFormed_empty wellFormed_empty indexed_empty indexed_empty
    (fun _ => Iff.rfl) (fun _ _ => rfl)

/-- A new shard: no file, no order. -/
theorem agrees_new : Agrees (.open_ {}) {} where
  wellFormed := wellFormed_empty
  indexed := indexed_empty
  recovers := ⟨{}, [], {}, holds_new, rfl, wellFormed_empty, twins_empty⟩

/-- An agreeing store is replayed into a twin of the live engine. -/
theorem agrees_rebuild (agrees : Agrees wal live) :
    ∃ rebuilt, rebuild wal = .ok (wal.flush, rebuilt) ∧ WellFormed rebuilt ∧ Twins rebuilt live := by
  obtain ⟨base, entries, rebuilt, holds, replayed, wf, twins⟩ := agrees.recovers
  refine ⟨rebuilt, ?_, wf, twins⟩
  rw [rebuild_eq holds, replayed]
  rfl

theorem replayAll_append (base : MatchingEngine) (entries : List Entry) (entry : Entry) :
    replayAll base (entries ++ [entry]) = (replayAll base entries).bind fun engine => entry.replay engine := by
  rw [replayAll, List.foldlM_append]
  simp only [List.foldlM_cons, List.foldlM_nil, bind_pure, replayAll]
  rfl

/-- A risk rejection behind a log adds nothing to what it leads to. -/
theorem replays_riskReject (holds : Holds wal base entries) (replayed : replayAll base entries = .ok rebuilt)
    (cmd : AddOrder) (reason : Bytes) : ∃ later, Holds (wal.append (riskRecord cmd reason)) base later ∧
      replayAll base later = .ok rebuilt := by
  refine ⟨_, holds_append holds (.riskReject cmd reason), ?_⟩
  rw [replayAll_append, replayed]
  rfl

/-- A command behind a log is issued to the engine the log leads to. -/
theorem replays_command (holds : Holds wal base entries) (replayed : replayAll base entries = .ok rebuilt)
    {issued : Command} {outcome : Outcome} (ran : rebuilt.apply issued = .ok (next, outcome)) :
    ∃ later, Holds (wal.append (commandRecord issued)) base later ∧ replayAll base later = .ok next := by
  refine ⟨_, holds_append holds (.command issued), ?_⟩
  rw [replayAll_append, replayed]
  simp only [Except.bind, Entry.replay, ran]
  rfl

theorem agrees_reject (agrees : Agrees wal live) (symbol : Bytes) (orderId : Int64) (reason : Bytes) :
    Agrees wal (live.reject symbol orderId reason).1 where
  wellFormed := wellFormed_congr agrees.wellFormed (fun _ _ => rfl) rfl rfl
  indexed := indexed_congr agrees.indexed (fun _ _ => rfl) rfl
  recovers := by
    obtain ⟨base, entries, rebuilt, holds, replayed, wf, twins⟩ := agrees.recovers
    exact ⟨base, entries, rebuilt, holds, replayed, wf, twins.congr rfl rfl rfl rfl⟩

theorem agrees_riskReject (agrees : Agrees wal live) (cmd : AddOrder) (reason : Bytes) :
    Agrees (wal.append (riskRecord cmd reason)) live where
  wellFormed := agrees.wellFormed
  indexed := agrees.indexed
  recovers := by
    obtain ⟨base, entries, rebuilt, holds, replayed, wf, twins⟩ := agrees.recovers
    obtain ⟨later, held, same⟩ := replays_riskReject holds replayed cmd reason
    exact ⟨base, later, rebuilt, held, same, wf, twins⟩

theorem agrees_command (agrees : Agrees wal live) {issued : Command} {outcome : Outcome}
    (fresh : NoLiveId live issued) (ran : live.apply issued = .ok (next, outcome)) :
    Agrees (wal.append (commandRecord issued)) next := by
  obtain ⟨base, entries, rebuilt, holds, replayed, wf, twins⟩ := agrees.recovers
  have nextWf := wellFormed_of_apply agrees.wellFormed ran
  obtain ⟨rebuiltNext, outcome', ran', rebuiltWf⟩ := apply_wellFormed wf issued
  obtain ⟨later, held, replayed'⟩ := replays_command holds replayed ran'
  exact ⟨nextWf, apply_indexed agrees.wellFormed agrees.indexed fresh ran, base, later, rebuiltNext, held,
    replayed', rebuiltWf, (twins.apply wf agrees.wellFormed ran' ran).1⟩

theorem agrees_snapshot (agrees : Agrees wal live) : Agrees (wal.saveSnapshot live.snapshot) live where
  wellFormed := agrees.wellFormed
  indexed := agrees.indexed
  recovers := by
    obtain ⟨restored, loaded, wf, twins⟩ :=
      SnapshotRestore.snapshot_restores agrees.wellFormed agrees.indexed {}
    exact ⟨restored, [], restored, holds_saveSnapshot (snapshot_doubleFree live) loaded wal, rfl, wf, twins⟩

theorem agrees_change {admitted : Command → Prop} (agrees : Agrees wal live)
    (change : Change admitted wal live wal' live') (fresh : ∀ issued, admitted issued → NoLiveId live issued) :
    Agrees wal' live' := by
  cases change with
  | untouched => exact agrees
  | rejected symbol orderId reason => exact agrees_reject agrees symbol orderId reason
  | riskRejected cmd reason =>
    exact agrees_reject (agrees_riskReject agrees cmd reason) cmd.symbol cmd.orderId reason
  | command issued _ outcome passed ran => exact agrees_command agrees (fresh issued passed) ran
  | snapshot => exact agrees_snapshot agrees

/-! ## Runs -/

variable {shardCount : Nat} [NeZero shardCount]

/-- No accepted command brings in an order id that is live in its shard. -/
def FreshCall (state : ShardedMatchingEngine shardCount) (call : ShardedMatchingEngine.Call) : Prop :=
  ∀ issued ∈ state.accepted call, NoLiveId (state.engines (shardOf issued.symbol)) issued

instance (state : ShardedMatchingEngine shardCount) (call : ShardedMatchingEngine.Call) :
    Decidable (FreshCall state call) :=
  inferInstanceAs (Decidable (∀ issued ∈ state.accepted call,
    NoLiveId (state.engines (shardOf issued.symbol)) issued))

/-- Every run keeps every shard's store in agreement with its live engine. -/
theorem runs_agree (limits : RiskLimits) (calls : List ShardedMatchingEngine.Call)
    (fresh : Meets ShardedMatchingEngine.apply FreshCall
      (ShardedMatchingEngine.create limits (fun _ : Fin shardCount => {})) calls) :
    ∃ state outcomes, run ShardedMatchingEngine.apply
        (ShardedMatchingEngine.create limits (fun _ : Fin shardCount => {})) calls = .ok (state, outcomes) ∧
      ∀ shard, Agrees (state.wals shard) (state.engines shard) := by
  refine Runs.run_invariant FreshCall
    (fun state : ShardedMatchingEngine shardCount => ∀ shard, Agrees (state.wals shard) (state.engines shard))
    (fun state call agrees guard => ?_) (fun _ => agrees_new) fresh
  obtain ⟨next, outcome, ran, changes⟩ := apply_changes (fun shard => (agrees shard).wellFormed) call
  refine ⟨next, outcome, ran, fun shard => agrees_change (agrees shard) (changes shard) ?_⟩
  rintro issued ⟨passed, rfl⟩
  exact guard issued passed

/-- Whatever has been called, and with snapshots taken at any point, replaying
a shard gives back the live engine's books and an index that leads to the same
orders. -/
theorem replayShard_returns_live_books (limits : RiskLimits) (calls : List ShardedMatchingEngine.Call)
    (fresh : Meets ShardedMatchingEngine.apply FreshCall
      (ShardedMatchingEngine.create limits (fun _ : Fin shardCount => {})) calls) :
    ∃ state outcomes, run ShardedMatchingEngine.apply
        (ShardedMatchingEngine.create limits (fun _ : Fin shardCount => {})) calls = .ok (state, outcomes) ∧
      ∀ shard, ∃ state' rebuilt, state.replayShard shard = .ok (state', rebuilt) ∧
        SameBooks rebuilt (state.engines shard) ∧
        ∀ orderId, rebuilt.whereIs orderId = (state.engines shard).whereIs orderId := by
  obtain ⟨state, outcomes, ran, agrees⟩ := runs_agree limits calls fresh
  refine ⟨state, outcomes, ran, fun shard => ?_⟩
  obtain ⟨rebuilt, recovered, wf, twins⟩ := agrees_rebuild (agrees shard)
  have live := (agrees shard).wellFormed
  refine ⟨state.setWal shard (state.wals shard).flush, rebuilt, ?_, twins.sameBooks wf live,
    twins.whereIs_eq wf live⟩
  simp only [ShardedMatchingEngine.replayShard, recovered, bind, Except.bind]

/-- Adds around a snapshot, one refused by risk and one out of order, then a
replace and a cancel. -/
def mixedCalls : List ShardedMatchingEngine.Call :=
  [.add { symbol := ascii "S", orderId := 1, participantId := ascii "A", priceTicks := 100, quantity := 5 } (some 7),
    .add { symbol := ascii "S", orderId := 2, participantId := ascii "B", priceTicks := 99, quantity := 0 } none,
    .snapshotAll,
    .add { symbol := ascii "S", orderId := 3, participantId := ascii "B", side := .sell, priceTicks := 101,
           quantity := 4 } none,
    .cancel { symbol := ascii "S", orderId := 3 } (some 7),
    .replace { symbol := ascii "S", orderId := 3, newOrderId := 4, newPriceTicks := 100, newQuantity := 2 } none,
    .cancel { symbol := ascii "S", orderId := 1 } none]

theorem mixed_calls_replay :
    ∃ state outcomes, run ShardedMatchingEngine.apply
        (ShardedMatchingEngine.create {} (fun _ : Fin 2 => {})) mixedCalls = .ok (state, outcomes) ∧
      ∀ shard, ∃ state' rebuilt, state.replayShard shard = .ok (state', rebuilt) ∧
        SameBooks rebuilt (state.engines shard) ∧
        ∀ orderId, rebuilt.whereIs orderId = (state.engines shard).whereIs orderId :=
  replayShard_returns_live_books {} mixedCalls (by decide)

end Exchange.ShardReplay
