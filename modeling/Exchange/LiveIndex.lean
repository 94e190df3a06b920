import Exchange.SnapshotValidation

/-! The iterators of the order index. A run may repeat order ids and may load
snapshots taken anywhere, so several nodes can share one entry that is written
and erased in four places. The entry still never outlives its node: it is found
in the list the entry names, alone with its address, and a removal takes it out. -/
namespace Exchange

/-- An engine some run reaches from a fresh one, loads of snapshots of such
engines included, with their books in any order. -/
inductive Reached : MatchingEngine → Prop where
  | fresh : Reached {}
  | command {engine next : MatchingEngine} {outcome : Outcome} (reached : Reached engine) (command : Command)
      (ran : engine.apply command = .ok (next, outcome)) : Reached next
  | load {engine source next : MatchingEngine} {snap : Json} (reached : Reached engine) (saved : Reached source)
      (taken : source.IsSnapshot snap) (ran : engine.loadSnapshot snap = .ok next) : Reached next

/-- The entry's iterator denotes `node`: one node of the list at its book, side
and price has its address, and the id is the entry's. -/
structure Denotes (engine : MatchingEngine) (orderId : Int64) (loc : Location) (node : Node) : Prop where
  listed : ∃ ahead behind,
    ((engine.bookFor loc.symbol).side loc.side).find loc.price = some (ahead ++ node :: behind) ∧
      ∀ other ∈ ahead ++ behind, other.addr ≠ loc.iter
  addr : node.addr = loc.iter
  named : node.orderId = orderId
  /-- Following the iterator, as `cancel` and `replace` do, reaches the node. -/
  reached : engine.deref loc = .ok node
  /-- `remove_resting` erases it and no other order. -/
  removed : EngineSteps.Removed engine node (engine.removeResting orderId)

namespace LiveIndex
open EngineSteps EngineInvariant SnapshotValidation
variable {engine : MatchingEngine}

theorem reached_wellFormed (reached : Reached engine) : WellFormed engine := by
  induction reached with
  | fresh => exact wellFormed_empty
  | command _ command ran wf => exact wellFormed_of_apply wf ran
  | load _ _ taken ran _ saved =>
    obtain ⟨loaded, ran', wf⟩ := listing_loads saved taken _
    rw [ran] at ran'
    cases ran'
    exact wf

/-- The nodes of one list have different addresses. -/
theorem level_distinct (wf : WellFormed engine) {symbol : Bytes} {side : Side} {price : Int64} {level : Level}
    (found : ((engine.bookFor symbol).side side).find price = some level) : (level.map Node.addr).Nodup := by
  obtain ⟨ahead, behind, split⟩ := PriceLevels.bestFirst_of_find side found
  have whole : (queue side ((engine.bookFor symbol).side side)).map Node.addr = _ :=
    congrArg (List.map Node.addr) (PriceLevels.queue_of_split split)
  have distinct := wf.distinct symbol side
  rw [MatchingEngine.resting, MatchingEngine.levels, whole, List.map_append, List.map_append] at distinct
  exact (List.nodup_append.mp (List.nodup_append.mp distinct).1).2.1

theorem denotes_of_entry (wf : WellFormed engine) {orderId : Int64} {loc : Location}
    (entry : engine.index.lookup orderId = some loc) : ∃ node, Denotes engine orderId loc node := by
  obtain ⟨node, reached, member, addr, price, named⟩ := deref_ok wf entry
  obtain ⟨-, -, -, -, -, removed⟩ := removeResting_removed entry reached (wf.sides _ _)
  obtain ⟨-, level, found, inside⟩ := PriceLevels.level_of_mem_queue (wf.sides _ _) member
  rw [price] at found
  obtain ⟨ahead, behind, rfl⟩ := List.append_of_mem inside
  refine ⟨node, ⟨ahead, behind, found, fun other held same => ?_⟩, addr, named, reached, removed⟩
  have distinct := level_distinct wf found
  rw [List.map_append, List.map_cons, List.nodup_middle, ← List.map_append] at distinct
  rw [← addr] at same
  exact (List.nodup_cons.mp distinct).1 (same ▸ List.mem_map_of_mem held)

/-- In every reached state every index entry denotes a live order, and no
command and no load of a reached engine's snapshot throws. -/
theorem index_never_dangles (reached : Reached engine) :
    (∀ orderId loc, engine.index.lookup orderId = some loc → ∃ node, Denotes engine orderId loc node) ∧
      (∀ command, ∃ next outcome, engine.apply command = .ok (next, outcome)) ∧
      ∀ source snap, Reached source → source.IsSnapshot snap → ∃ next, engine.loadSnapshot snap = .ok next := by
  have wf := reached_wellFormed reached
  refine ⟨fun orderId loc entry => denotes_of_entry wf entry, fun command => ?_, fun source snap saved taken => ?_⟩
  · obtain ⟨next, outcome, ran, -⟩ := apply_wellFormed wf command
    exact ⟨next, outcome, ran⟩
  · obtain ⟨next, ran, -⟩ := listing_loads (reached_wellFormed saved) taken engine
    exact ⟨next, ran⟩

theorem reached_of_run (reached : Reached engine) {commands : List Command} {next : MatchingEngine}
    {outcomes : List Outcome} (ran : run MatchingEngine.apply engine commands = .ok (next, outcomes)) :
    Reached next := by
  induction commands generalizing engine outcomes with
  | nil =>
    cases ran
    exact reached
  | cons command commands ih =>
    obtain ⟨⟨mid, outcome⟩, first, later⟩ := Runs.bind_ok_iff.mp ran
    obtain ⟨⟨final, rest⟩, onward, done⟩ := Runs.bind_ok_iff.mp later
    cases done
    exact ih (.command reached command first) onward

theorem reached_of_reachable (reachable : Reachable engine) : Reached engine := by
  obtain ⟨commands, outcomes, ran⟩ := reachable
  exact reached_of_run .fresh ran

/-- Three bids under one id, two of them at one price. -/
def sharedId : List Command :=
  [100, 101, 101].map fun price =>
    .add { symbol := ascii "S", orderId := 1, participantId := ascii "A", priceTicks := price, quantity := 3 }

/-- A fresh engine that has loaded a snapshot of them. -/
def reloaded : MatchingEngine := (MatchingEngine.loadSnapshot {} (engineAfter sharedId).snapshot).toOption.getD {}

theorem reached_reloaded : Reached reloaded := by
  have saved := reached_of_reachable (reachable_engineAfter sharedId)
  have taken := (engineAfter sharedId).isSnapshot_snapshot
  obtain ⟨next, ran, -⟩ := listing_loads (reached_wellFormed saved) taken {}
  rw [reloaded, ran]
  exact .load .fresh saved taken ran

theorem reloaded_never_dangles :
    (∀ orderId loc, reloaded.index.lookup orderId = some loc → ∃ node, Denotes reloaded orderId loc node) ∧
      (∀ command, ∃ next outcome, reloaded.apply command = .ok (next, outcome)) ∧
      ∀ source snap, Reached source → source.IsSnapshot snap → ∃ next, reloaded.loadSnapshot snap = .ok next :=
  index_never_dangles reached_reloaded

end LiveIndex
end Exchange
