import Exchange.EventNumbers
import Exchange.ShardReplay

/-! What a snapshot is for. An engine loaded from the text of another engine's
snapshot has the same books and the same counter, and from then on the two
cannot be told apart: every run of commands gets the same events, with the same
numbers, and the same trades from both. -/
namespace Exchange.SnapshotContinuation
open EngineInvariant OrderIndex EventNumbers

/-- An event as the source holds it, its number a 64-bit word. -/
def emitted (event : ExecEvent) : Int64 × EventType × Bytes × Payload :=
  (Int64.ofInt event.sequence, event.type, event.symbol, event.payload)

/-- The events and trades of an outcome as the source holds them. -/
def returned (outcome : Outcome) : List (Int64 × EventType × Bytes × Payload) × List Trade :=
  (outcome.events.map emitted, outcome.trades)

/-- `restored` goes on where `engine` is. The counter is compared as the
`long long` it is in the source, and as the model's integer while it is one
that a `long long` can hold. -/
structure Continues (restored engine : MatchingEngine) : Prop where
  sequence : Int64.ofInt restored.nextSequence = Int64.ofInt engine.nextSequence
  books : SameBooks restored engine
  index : ∀ orderId, restored.whereIs orderId = engine.whereIs orderId
  later : ∀ commands, ∃ next next' outcomes outcomes',
    run MatchingEngine.apply engine commands = .ok (next, outcomes) ∧
    run MatchingEngine.apply restored commands = .ok (next', outcomes') ∧
    outcomes'.map returned = outcomes.map returned ∧ SameBooks next' next
  inRange : engine.sequence < 2 ^ 63 → restored.nextSequence = engine.nextSequence ∧
    ∀ commands, (run MatchingEngine.apply restored commands).map Prod.snd =
      (run MatchingEngine.apply engine commands).map Prod.snd

variable {engine restored : MatchingEngine}

theorem returned_renumber {gap : Int} (whole : Int64.ofInt gap = 0) (outcome : Outcome) :
    returned (renumber gap outcome) = returned outcome := by
  simp only [returned, renumber, List.map_map, Prod.mk.injEq, and_true]
  refine List.map_congr_left fun event _ => ?_
  simp [emitted, whole]

theorem renumber_zero (outcome : Outcome) : renumber 0 outcome = outcome := by
  simp [renumber]

/-- Twins whose counters are the same word go on alike. -/
theorem continues_of_twins (twins : Twins restored engine) (wf : WellFormed restored) (wf' : WellFormed engine)
    (counter : restored.sequence = (Int64.ofInt engine.sequence).toInt) (nonneg : 0 ≤ engine.sequence) :
    Continues restored engine where
  sequence := by
    rw [MatchingEngine.nextSequence, MatchingEngine.nextSequence, counter, Int64.ofInt_add, Int64.ofInt_add,
      Int64.ofInt_toInt]
  books := twins.sameBooks wf wf'
  index := twins.whereIs_eq wf wf'
  later commands := by
    obtain ⟨next', next, outcomes, ran, ran', after⟩ := twins_run twins wf wf' commands
    obtain ⟨_, _, again, nextWf⟩ := Runs.run_invariant (fun _ _ => True) WellFormed
      (fun _ command wf _ => apply_wellFormed wf command) wf' (Runs.meets_of_forall (fun _ _ => trivial) commands)
    obtain ⟨_, _, again', nextWf'⟩ := Runs.run_invariant (fun _ _ => True) WellFormed
      (fun _ command wf _ => apply_wellFormed wf command) wf (Runs.meets_of_forall (fun _ _ => trivial) commands)
    rw [ran] at again
    rw [ran'] at again'
    cases again
    cases again'
    refine ⟨next, next', _, _, ran, ran', ?_, after.sameBooks nextWf' nextWf⟩
    rw [List.map_map]
    refine List.map_congr_left fun outcome _ => returned_renumber ?_ outcome
    rw [counter, Int64.ofInt_sub, Int64.ofInt_toInt, Int64.sub_self]
  inRange small := by
    have same : restored.sequence = engine.sequence :=
      counter.trans (Int64.toInt_ofInt_of_le (by omega) small)
    refine ⟨by rw [MatchingEngine.nextSequence, MatchingEngine.nextSequence, same], fun commands => ?_⟩
    obtain ⟨next', next, outcomes, ran, ran', -⟩ := twins_run twins wf wf' commands
    have plain : outcomes.map (renumber (restored.sequence - engine.sequence)) = outcomes := by
      rw [same, sub_self, List.map_congr_left fun outcome _ => renumber_zero outcome, List.map_id']
    rw [ran, ran', plain]
    rfl

/-- Every engine a run without live ids reaches is continued by whatever
engine its snapshot's text is loaded into, whatever the order of its books. -/
theorem loaded_snapshot_continues (commands : List Command)
    (fresh : Meets MatchingEngine.apply NoLiveId {} commands) :
    ∃ engine outcomes, run MatchingEngine.apply {} commands = .ok (engine, outcomes) ∧
      ∀ taken, engine.IsSnapshot taken → ∀ target : MatchingEngine, ∃ snap restored,
        Json.parse taken.dump = .ok snap ∧ target.loadSnapshot snap = .ok restored ∧ Continues restored engine := by
  obtain ⟨engine, outcomes, ran, ⟨wf, indexed⟩, nonneg⟩ := Runs.run_invariant NoLiveId
    (fun engine => (WellFormed engine ∧ Indexed engine) ∧ 0 ≤ engine.sequence)
    (fun engine command held guard => by
      obtain ⟨next, outcome, ran, wf⟩ := apply_wellFormed held.1.1 command
      refine ⟨next, outcome, ran, ⟨wf, apply_indexed held.1.1 held.1.2 guard ran⟩, ?_⟩
      exact held.2.trans (apply_bounds held.1.1 ran).1)
    ⟨⟨wellFormed_empty, indexed_empty⟩, le_refl _⟩ fresh
  refine ⟨engine, outcomes, ran, fun snap taken target => ?_⟩
  obtain ⟨restored, loaded, restoredWf, twins⟩ := SnapshotRestore.listing_restores wf indexed taken target
  exact ⟨snap, restored, JsonRoundTrip.parse_dump _ (ShardReplay.listing_doubleFree taken), loaded,
    continues_of_twins twins restoredWf wf (SnapshotRestore.listing_sequence taken loaded) nonneg⟩

/-- Two bids at one price and an ask that takes part of the first. -/
def partlyFilled : List Command :=
  [.add { symbol := ascii "S", orderId := 1, participantId := ascii "A", priceTicks := 100, quantity := 5 },
    .add { symbol := ascii "S", orderId := 2, participantId := ascii "B", priceTicks := 100, quantity := 5 },
    .add { symbol := ascii "S", orderId := 3, participantId := ascii "C", side := .sell, priceTicks := 100,
           quantity := 2 }]

theorem partly_filled_continues :
    ∃ engine outcomes, run MatchingEngine.apply {} partlyFilled = .ok (engine, outcomes) ∧
      ∀ taken, engine.IsSnapshot taken → ∀ target : MatchingEngine, ∃ snap restored,
        Json.parse taken.dump = .ok snap ∧ target.loadSnapshot snap = .ok restored ∧ Continues restored engine :=
  loaded_snapshot_continues partlyFilled (by decide)

end Exchange.SnapshotContinuation
