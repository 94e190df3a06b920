import Exchange.PipelineCapacity
import Exchange.ShardTransparency

/-! The whole pipeline against one market. Threads, queues, shards and the risk
check are details: what `drain` returns of the submitted commands is what one
market, a book for each symbol, answers to them in the order of submission. -/
namespace Exchange.PipelineMarket
open PipelineInbound PipelineOutbound PipelineLinear PipelineCapacity ShardComponents ShardTransparency
open ShardedMatchingEngine (shardOf)
open ThreadedShardedEngine (step)

/-- All commands in order, each behind the risk check. -/
def handleAll (limits : RiskLimits) : Market → List Command → Market × List Answer
  | market, [] => (market, [])
  | market, command :: commands =>
    let (market, answer) := handle limits market command
    let (market, answers) := handleAll limits market commands
    (market, answer :: answers)

/-- This result message says what the market answers to a submitted message. -/
structure Answering (result : ResultMsg) (asked : CommandMsg × Answer) : Prop where
  correlation : result.correlation = asked.1.correlation
  answers : Answers ⟨result.events, result.trades⟩ asked.1.command.symbol asked.2

variable {shardCount : Nat} [NeZero shardCount]

/-- The messages of a shard, each with the market's answer to it. -/
def expected (shard : Fin shardCount) (messages : List CommandMsg) (answers : List Answer) :
    List (CommandMsg × Answer) :=
  (messages.zip answers).filter fun asked => decide (shardOf asked.1.command.symbol = shard)

/-- The sharded engine handles an orderly run of messages without numbers as the market does. -/
theorem runs_answer {state : ShardedMatchingEngine shardCount} {market : Market} (makes : Makes state market)
    {messages : List CommandMsg} (unsequenced : ∀ msg ∈ messages, msg.ingressSequence = none)
    (orderly : Meets ShardedMatchingEngine.apply Orderly state (messages.map CommandMsg.call)) :
    ∃ final outcomes, run ShardedMatchingEngine.apply state (messages.map CommandMsg.call) = .ok (final, outcomes) ∧
      Makes final (handleAll state.limits market (messages.map CommandMsg.command)).1 ∧
      ∀ shard : Fin shardCount, List.Forall₂ Answering (sequentialResults shard messages outcomes)
        (expected shard messages (handleAll state.limits market (messages.map CommandMsg.command)).2) := by
  induction messages generalizing state market with
  | nil => exact ⟨state, [], rfl, makes, fun shard => .nil⟩
  | cons msg messages ih =>
    have plain : msg.call = unsequencedCall msg.command := by
      have none_ := unsequenced msg (by simp)
      obtain ⟨command, number, correlation⟩ := msg
      subst none_
      cases command <;> rfl
    have guard : Orderly state (unsequencedCall msg.command) := plain ▸ orderly.1
    have later := orderly.2
    obtain ⟨next, outcome, stepped, kept, nextMakes, answers⟩ := makes_apply makes guard
    rw [plain, stepped] at later
    obtain ⟨final, outcomes, ran, finalMakes, results⟩ :=
      ih nextMakes (fun other member => unsequenced other (List.mem_cons_of_mem _ member)) later
    rw [kept] at finalMakes results
    refine ⟨final, outcome :: outcomes, ?_, finalMakes, fun shard => ?_⟩
    · rw [List.map_cons, plain, Runs.run_cons stepped, ran]
      rfl
    · have rest := results shard
      simp only [List.map_cons, handleAll]
      unfold sequentialResults answered expected at rest ⊢
      rw [List.zip_cons_cons, List.zip_cons_cons, List.filter_cons, List.filter_cons]
      split
      · exact .cons ⟨rfl, answers⟩ rest
      · exact rest

variable {start : ThreadedShardedEngine shardCount}

/-- What has been drained of a shard is the front of what the market answers to
its messages, and once nothing is on its way it is all of it, and the worker's
engine shows the market's books. -/
structure ShowsMarket (final : ThreadedShardedEngine shardCount)
    (observed : List (Option (Observation shardCount))) (market : Market × List Answer)
    (shard : Fin shardCount) : Prop where
  front : List.Forall₂ Answering (drainedFrom shard observed)
    ((expected shard (submitted observed) market.2).take (drainedFrom shard observed).length)
  whole : AllOut final shard → List.Forall₂ Answering (drainedFrom shard observed)
    (expected shard (submitted observed) market.2)
  books : AllOut final shard → ∀ symbol, shardOf symbol = shard →
    (final.engine.engines shard).shown symbol = market.1 symbol

theorem showsMarket_of_run {limits : RiskLimits} {files : Fin shardCount → Files}
    {final : ThreadedShardedEngine shardCount} {observed : List (Option (Observation shardCount))}
    (engine : start.engine = .create limits files) (inv : Serial start final observed) (out : Outbound final observed)
    (unsequenced : ∀ msg ∈ submitted observed, msg.ingressSequence = none)
    (orderly : Meets ShardedMatchingEngine.apply Orderly (.create limits files)
      ((submitted observed).map CommandMsg.call)) (shard : Fin shardCount) :
    ShowsMarket final observed (handleAll limits (fun _ => none) ((submitted observed).map CommandMsg.command))
      shard := by
  obtain ⟨sequential, outcomes, ran, makes, results⟩ := runs_answer (makes_created limits files) unsequenced orderly
  rw [← engine] at ran
  obtain ⟨front, whole⟩ := results_behind inv out ran shard
  have answered := results shard
  constructor
  · rw [List.prefix_iff_eq_take.mp front, List.length_take, Nat.min_eq_left front.length_le]
    exact List.forall₂_take _ answered
  · intro out
    rw [(whole out).1]
    exact answered
  · intro out symbol here
    have own := congrArg (fun part : ShardedMatchingEngine 1 => part.engines 0) (whole out).2
    simp only [alone] at own
    have shown := makes.shown symbol
    rw [here] at shown
    rw [own]
    exact shown

/-- The messages that the actions submit. -/
def submissions (start : ThreadedShardedEngine shardCount) (actions : List (Action shardCount)) : List CommandMsg :=
  match run step start actions with
  | .ok (_, observed) => submitted observed
  | .error _ => []

/-- Whatever the interleaving and the number of shards: as long as no more is
submitted than a queue holds, no one stops the workers, and the submitted
commands carry no numbers and are orderly, `drain` returns of every shard the
market's answers in the order of submission, as far as they are out. -/
theorem pipeline_is_one_market {limits : RiskLimits} {files : Fin shardCount → Files} {capacity : UInt64}
    (created : ThreadedShardedEngine.create limits files capacity = some start) (actions : List (Action shardCount))
    (few : actions.countP isSubmit ≤ capacity.toNat) (going : ∀ action ∈ actions, action ≠ .stop)
    (unsequenced : ∀ msg ∈ submissions start actions, msg.ingressSequence = none)
    (orderly : Meets ShardedMatchingEngine.apply Orderly (.create limits files)
      ((submissions start actions).map CommandMsg.call)) :
    ∃ final observed, run step start actions = .ok (final, observed) ∧ ∀ shard, ShowsMarket final observed
      (handleAll limits (fun _ => none) ((submissions start actions).map CommandMsg.command)) shard := by
  have meets := run_nothingEmptied (roomy_created created) (serial_created created) (outbound_created created) actions
    (by simpa [submitted] using few) going
  obtain ⟨final, observed, ran, inv, out⟩ := linear_run created actions meets
  have sent : submissions start actions = submitted observed := by rw [submissions, ran]
  rw [sent] at unsequenced orderly ⊢
  exact ⟨final, observed, ran, fun shard =>
    showsMarket_of_run (created_engine created).1 inv out unsequenced orderly shard⟩

/-- The interleaving of two bids that meets a full queue where it has one slot. -/
theorem hurried_bids_on_one_market :
    ∃ final observed, run step twoSlots hurried = .ok (final, observed) ∧ ∀ shard, ShowsMarket final observed
      (handleAll {} (fun _ => none) ((submissions twoSlots hurried).map CommandMsg.command)) shard :=
  pipeline_is_one_market twoSlots_created hurried (by decide) hurried_going (by decide +kernel) (by decide +kernel)

end Exchange.PipelineMarket
