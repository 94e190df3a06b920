import Exchange.EngineInvariant

/-! Price-time priority over runs. The event counter dates every order when it
comes to rest, the date grows along each level, and an add works through the
opposite queue from its front. So whoever is ahead is served, or taken out,
before anyone behind is touched. -/
namespace Exchange.PriceTimePriority
open EngineSteps EngineInvariant

/-- Along a queue, orders at one price are in the order they came to rest, and
no order is dated after the counter. -/
structure Dated (engine : MatchingEngine) : Prop where
  ordered : ∀ symbol side, (engine.resting symbol side).Pairwise (fun earlier later =>
    earlier.priceTicks = later.priceTicks → earlier.enteredSequence < later.enteredSequence)
  past : ∀ symbol side, ∀ order ∈ engine.resting symbol side, order.enteredSequence ≤ engine.sequence

/-- Every stored level is in strictly increasing order of resting. -/
def LevelsByTime (engine : MatchingEngine) : Prop :=
  ∀ symbol side price level, (engine.levels symbol side).find price = some level →
    level.Pairwise (fun earlier later => earlier.enteredSequence < later.enteredSequence)

/-- `first` has the better price, or the same price and came to rest earlier. -/
def Precedes (side : Side) (first second : Node) : Prop :=
  beyond side first.priceTicks second.priceTicks = true ∨
    (first.priceTicks = second.priceTicks ∧ first.enteredSequence < second.enteredSequence)

/-- What an add from `before` to `after` may do to the orders that were
resting. Nothing of `second` changes unless `first` is gone; every node that
stays is the old one, possibly with less quantity, and the nodes that stay
keep their order. -/
structure KeepsPriority (before after : MatchingEngine) : Prop where
  served : ∀ symbol side, ∀ first ∈ before.resting symbol side,
    ∀ second ∈ before.resting symbol side, Precedes side first second →
      second ∈ after.resting symbol side ∨ ∀ held ∈ after.resting symbol side, held.addr ≠ first.addr
  identity : ∀ symbol side, ∀ held ∈ after.resting symbol side, held.addr < before.nodes →
    ∃ original ∈ before.resting symbol side, ∃ left, held = { original with remaining := left } ∧
      left ≤ original.remaining
  position : ∀ symbol side,
    (((after.resting symbol side).map Node.addr).filter (· < before.nodes)).Sublist
      ((before.resting symbol side).map Node.addr)

/-- The add a command runs, and the state it runs it in. A replace runs its add
after its own cancel. -/
def RunsAdd (engine : MatchingEngine) : Command → MatchingEngine → AddOrder → Prop
  | .add cmd, before, issued => before = engine ∧ issued = cmd
  | .cancel _, _, _ => False
  | .replace cmd, before, issued => ∃ loc order events, engine.index.lookup cmd.orderId = some loc ∧
      engine.deref loc = .ok order ∧ engine.cancel ⟨cmd.symbol, cmd.orderId⟩ = .ok (before, events) ∧
      issued = MatchingEngine.replacementOrder cmd order.participantId loc.side

variable {engine mid next : MatchingEngine} {cmd : AddOrder} {order : Node}

theorem dated_empty : Dated {} := by
  constructor
  · intro symbol side
    cases side <;> simp [MatchingEngine.resting, MatchingEngine.levels, MatchingEngine.bookFor, Book.side]
  · intro symbol side order member
    cases side <;> exact absurd member (by simp [MatchingEngine.resting, MatchingEngine.levels,
      MatchingEngine.bookFor, Book.side])

theorem dated_congr (dated : Dated engine)
    (levels : ∀ symbol side, next.levels symbol side = engine.levels symbol side)
    (later : engine.sequence ≤ next.sequence) : Dated next := by
  have resting : ∀ symbol side, next.resting symbol side = engine.resting symbol side := by
    intro symbol side
    simp [MatchingEngine.resting, levels]
  constructor
  · simpa [resting] using dated.ordered
  · intro symbol side order member
    rw [resting] at member
    exact Int.le_trans (dated.past symbol side order member) later

/-- A well-formed side shows its levels in its queue. -/
theorem levelsByTime (wf : WellFormed engine) (dated : Dated engine) : LevelsByTime engine := by
  intro symbol side price level found
  obtain ⟨ahead, behind, split⟩ := PriceLevels.bestFirst_of_find side found
  have ordered := dated.ordered symbol side
  rw [MatchingEngine.resting, PriceLevels.queue_of_split split] at ordered
  have inLevel := (List.pairwise_append.mp (List.pairwise_append.mp ordered).1).2.1
  apply inLevel.imp_of_mem
  intro earlier later first second before
  apply before
  rw [(PriceLevels.placed_of_find (wf.sides symbol side) found first).price,
    (PriceLevels.placed_of_find (wf.sides symbol side) found second).price]

/-- Cutting the queue and shrinking its first order changes no date. -/
theorem walk_rest_ordered {remaining : Int64} {queue : List Node}
    (ordered : queue.Pairwise (fun earlier later =>
      earlier.priceTicks = later.priceTicks → earlier.enteredSequence < later.enteredSequence)) :
    (walk cmd remaining queue).rest.Pairwise (fun earlier later =>
      earlier.priceTicks = later.priceTicks → earlier.enteredSequence < later.enteredSequence) := by
  obtain ⟨kept, shape, left⟩ := MatchWalk.walk_rest cmd remaining queue
  rw [shape] at ordered
  have tail := (List.pairwise_append.mp ordered).2.1
  rcases left with same | ⟨first, qty, rest, rfl, -, -, same⟩
  · rw [same]
    exact tail
  · rw [same]
    obtain ⟨head, later⟩ := List.pairwise_cons.mp tail
    exact List.pairwise_cons.mpr ⟨head, later⟩

theorem matched_dated (dated : Dated engine) (matched : Matched engine cmd mid) :
    Dated mid ∧ ∀ symbol side, ∀ order ∈ mid.resting symbol side,
      order.enteredSequence ≤ engine.sequence := by
  have old : ∀ symbol side, ∀ order ∈ mid.resting symbol side,
      order.enteredSequence ≤ engine.sequence := by
    intro symbol side order member
    obtain ⟨original, held, left, rfl, -⟩ := mem_matched matched member
    exact dated.past symbol side original held
  refine ⟨⟨?_, ?_⟩, old⟩
  · intro symbol side
    by_cases here : symbol = cmd.symbol ∧ side = opposite cmd.side
    · obtain ⟨rfl, rfl⟩ := here
      rw [matched.rest]
      exact walk_rest_ordered (dated.ordered _ _)
    · rw [resting_of_levels (matched.elsewhere symbol side (by tauto))]
      exact dated.ordered symbol side
  · intro symbol side order member
    have bound := old symbol side order member
    rw [matched.sequence]
    omega

theorem inserted_dated (dated : Dated engine) (inserted : Inserted engine order next)
    (counter : next.sequence = engine.sequence) (entered : order.enteredSequence = engine.sequence)
    (older : ∀ held ∈ engine.resting order.symbol order.side,
      held.enteredSequence < order.enteredSequence) : Dated next := by
  constructor
  · intro symbol side
    by_cases here : symbol = order.symbol ∧ side = order.side
    · obtain ⟨rfl, rfl⟩ := here
      obtain ⟨ahead, behind, before, after, -, worse⟩ := inserted.queue
      have ordered := dated.ordered order.symbol order.side
      rw [before] at ordered older
      rw [after]
      obtain ⟨front, back, across⟩ := List.pairwise_append.mp ordered
      refine List.pairwise_append.mpr ⟨front, List.pairwise_cons.mpr ⟨?_, back⟩, ?_⟩
      · intro later member same
        exact absurd same (PriceLevels.beyond_ne (worse later member))
      · intro earlier first later second same
        rcases List.mem_cons.mp second with rfl | behindIt
        · exact older earlier (List.mem_append_left _ first)
        · exact across earlier first later behindIt same
    · rw [resting_of_levels (inserted.elsewhere symbol side (by tauto))]
      exact dated.ordered symbol side
  · intro symbol side held member
    rw [counter]
    rcases (mem_inserted inserted).mp member with old | ⟨rfl, -, -⟩
    · exact dated.past symbol side held old
    · exact Int.le_of_eq entered

theorem removed_dated (dated : Dated engine) (removed : Removed engine order next)
    (later : engine.sequence ≤ next.sequence) : Dated next := by
  constructor
  · intro symbol side
    by_cases here : symbol = order.symbol ∧ side = order.side
    · obtain ⟨rfl, rfl⟩ := here
      obtain ⟨ahead, behind, before, after⟩ := removed.queue
      have ordered := dated.ordered order.symbol order.side
      rw [before] at ordered
      rw [after]
      exact ordered.sublist (List.Sublist.append_left (List.sublist_cons_self order behind) ahead)
    · rw [resting_of_levels (removed.elsewhere symbol side (by tauto))]
      exact dated.ordered symbol side
  · intro symbol side held member
    exact Int.le_trans (dated.past symbol side held (mem_removed removed member)) later

/-- The counter moves before an order rests, so its date is new. -/
theorem add_dated (wf : WellFormed engine) (dated : Dated engine) {outcome : Outcome}
    (ran : engine.add cmd = .ok (next, outcome)) : Dated next := by
  cases added_of_ran wf ran with
  | refused refuses =>
    exact dated_congr dated (fun symbol side => levels_open engine cmd.symbol symbol side)
      (by dsimp only; omega)
  | accepted accepts mid matched =>
    obtain ⟨midDated, old⟩ := matched_dated dated matched
    unfold settled
    split
    · rename_i resting
      have inserted := restOrder_inserted ((matched_wellFormed wf matched).sides cmd.symbol cmd.side)
        resting.1
      have restedDated := inserted_dated midDated inserted rfl rfl (by
        intro held member
        have bound := old _ _ held member
        show held.enteredSequence < mid.sequence
        rw [matched.sequence]
        omega)
      exact dated_congr restedDated (fun _ _ => rfl) (by
        show mid.sequence ≤ mid.sequence + _
        omega)
    · exact dated_congr midDated (fun _ _ => rfl) (by
        show mid.sequence ≤ mid.sequence + _
        omega)

theorem takenOut_dated (dated : Dated engine) {orderId : Int64} {loc : Location} {order : Node}
    (taken : TakenOut engine orderId loc order next) : Dated next := by
  refine removed_dated dated taken.removed ?_
  rw [taken.sequence]
  omega

theorem apply_dated (wf : WellFormed engine) (dated : Dated engine) {command : Command}
    {outcome : Outcome} (ran : engine.apply command = .ok (next, outcome)) : Dated next := by
  cases applied_of_ran wf ran with
  | add cmd ran => exact add_dated wf dated ran
  | cancelUnknown cmd missing => exact dated_congr dated (fun _ _ => rfl) (by dsimp only; omega)
  | cancelKnown cmd loc order entry taken => exact takenOut_dated dated taken
  | replaceUnknown cmd missing => exact dated_congr dated (fun _ _ => rfl) (by dsimp only; omega)
  | replaceKnown cmd loc order mid added entry taken ranAdd =>
    exact add_dated taken.wellFormed (takenOut_dated dated taken) ranAdd

/-! ## Serving in priority order -/

/-- Priority is position: whoever precedes stands further ahead in the queue. -/
theorem precedes_is_ahead (wf : WellFormed engine) (dated : Dated engine) {symbol : Bytes} {side : Side}
    {first second : Node} {ahead behind : List Node}
    (split : engine.resting symbol side = ahead ++ first :: behind)
    (member : second ∈ engine.resting symbol side) (precedes : Precedes side first second) :
    second ∈ behind := by
  have sorted := PriceLevels.queue_sorted (wf.sides symbol side)
  have ordered := dated.ordered symbol side
  rw [← MatchingEngine.resting] at sorted
  rw [split] at sorted ordered member
  rcases List.mem_append.mp member with front | back
  · have notWorse := (List.pairwise_append.mp sorted).2.2 second front first (by simp)
    have dates := (List.pairwise_append.mp ordered).2.2 second front first (by simp)
    rcases precedes with better | ⟨same, earlier⟩
    · rw [notWorse] at better
      cases better
    · have reversed := dates same.symm
      omega
  · rcases List.mem_cons.mp back with rfl | later
    · rcases precedes with better | ⟨-, earlier⟩
      · simp at better
      · omega
    · exact later

theorem walked_side_served (wf : WellFormed engine) (dated : Dated engine) {first second : Node}
    (firstHeld : first ∈ engine.resting cmd.symbol (opposite cmd.side))
    (secondHeld : second ∈ engine.resting cmd.symbol (opposite cmd.side))
    (precedes : Precedes (opposite cmd.side) first second) :
    second ∈ (engine.walkOf cmd).rest ∨ ∀ held ∈ (engine.walkOf cmd).rest, held.addr ≠ first.addr := by
  obtain ⟨kept, shape, left⟩ := MatchWalk.walk_rest cmd cmd.quantity
    (engine.resting cmd.symbol (opposite cmd.side))
  rw [shape, List.mem_append] at firstHeld
  rcases firstHeld with removed | stays
  · right
    intro held member same
    have distinct := wf.distinct cmd.symbol (opposite cmd.side)
    rw [walk_addrs cmd cmd.quantity, List.nodup_append] at distinct
    exact distinct.2.2 _ (List.mem_map_of_mem removed) _ (List.mem_map_of_mem member) same.symm
  · left
    -- The first order stays, so the second one is past the only order that can shrink.
    obtain ⟨front, back, keptShape⟩ := List.append_of_mem stays
    have split : engine.resting cmd.symbol (opposite cmd.side) =
        ((engine.walkOf cmd).steps.filterMap Step.removed ++ front) ++ first :: back := by
      rw [List.append_assoc, ← keptShape]
      exact shape
    have later := precedes_is_ahead wf dated split secondHeld precedes
    rcases left with same | ⟨head, qty, tail, keptCons, -, -, same⟩
    · rw [MatchingEngine.walkOf, same, keptShape]
      simp [later]
    · rw [MatchingEngine.walkOf, same]
      rw [keptShape] at keptCons
      cases front with
      | nil =>
        cases keptCons
        exact List.mem_cons_of_mem _ later
      | cons other front =>
        cases keptCons
        simp [later]

theorem matched_keepsPriority (wf : WellFormed engine) (dated : Dated engine)
    (matched : Matched engine cmd mid) : KeepsPriority engine mid := by
  have elsewhere : ∀ symbol side, ¬ (symbol = cmd.symbol ∧ side = opposite cmd.side) →
      mid.resting symbol side = engine.resting symbol side := by
    intro symbol side away
    exact resting_of_levels (matched.elsewhere symbol side (by tauto))
  constructor
  · intro symbol side first firstHeld second secondHeld precedes
    by_cases here : symbol = cmd.symbol ∧ side = opposite cmd.side
    · obtain ⟨rfl, rfl⟩ := here
      rw [matched.rest]
      exact walked_side_served wf dated firstHeld secondHeld precedes
    · rw [elsewhere symbol side here]
      exact Or.inl secondHeld
  · intro symbol side held member old
    obtain ⟨original, before, left, rfl, same | ⟨-, less⟩⟩ := mem_matched matched member
    · exact ⟨original, before, left, rfl, same.le⟩
    · exact ⟨original, before, left, rfl, less.le⟩
  · intro symbol side
    by_cases here : symbol = cmd.symbol ∧ side = opposite cmd.side
    · obtain ⟨rfl, rfl⟩ := here
      rw [matched.rest]
      exact List.filter_sublist.trans (walk_rest_addrs cmd _ _).sublist
    · rw [elsewhere symbol side here]
      exact List.filter_sublist

/-- Resting a new order moves nobody. -/
theorem inserted_keepsPriority {before : MatchingEngine} (kept : KeepsPriority before mid)
    (inserted : Inserted mid order next) (fresh : order.addr = before.nodes)
    (old : ∀ symbol side, ∀ held ∈ before.resting symbol side, held.addr < before.nodes) :
    KeepsPriority before next := by
  constructor
  · intro symbol side first firstHeld second secondHeld precedes
    rcases kept.served symbol side first firstHeld second secondHeld precedes with stays | gone
    · exact Or.inl ((mem_inserted inserted).mpr (Or.inl stays))
    · refine Or.inr fun held member => ?_
      rcases (mem_inserted inserted).mp member with there | ⟨rfl, -, -⟩
      · exact gone held there
      · have bound := old symbol side first firstHeld
        omega
  · intro symbol side held member bound
    rcases (mem_inserted inserted).mp member with there | ⟨rfl, -, -⟩
    · exact kept.identity symbol side held there bound
    · omega
  · intro symbol side
    by_cases here : symbol = order.symbol ∧ side = order.side
    · obtain ⟨rfl, rfl⟩ := here
      obtain ⟨ahead, behind, without, with_, -, -⟩ := inserted.queue
      have position := kept.position order.symbol order.side
      rw [without] at position
      rw [with_]
      simpa [fresh] using position
    · rw [resting_of_levels (inserted.elsewhere symbol side (by tauto))]
      exact kept.position symbol side

theorem keepsPriority_congr {before : MatchingEngine} (kept : KeepsPriority before engine)
    (levels : ∀ symbol side, next.levels symbol side = engine.levels symbol side) :
    KeepsPriority before next := by
  have resting : ∀ symbol side, next.resting symbol side = engine.resting symbol side := by
    intro symbol side
    simp [MatchingEngine.resting, levels]
  constructor
  · simpa only [resting] using kept.served
  · simpa only [resting] using kept.identity
  · simpa only [resting] using kept.position

theorem keepsPriority_refl (engine : MatchingEngine) : KeepsPriority engine engine :=
  ⟨fun _ _ _ _ _ held _ => Or.inl held, fun _ _ held member _ => ⟨held, member, held.remaining, rfl, le_refl _⟩,
    fun _ _ => List.filter_sublist⟩

theorem add_keepsPriority (wf : WellFormed engine) (dated : Dated engine) {outcome : Outcome}
    (ran : engine.add cmd = .ok (next, outcome)) : KeepsPriority engine next := by
  cases added_of_ran wf ran with
  | refused refuses =>
    exact keepsPriority_congr (keepsPriority_refl engine)
      (fun symbol side => levels_open engine cmd.symbol symbol side)
  | accepted accepts mid matched =>
    have kept := matched_keepsPriority wf dated matched
    unfold settled
    split
    · rename_i resting
      have inserted := restOrder_inserted ((matched_wellFormed wf matched).sides cmd.symbol cmd.side)
        resting.1
      refine keepsPriority_congr (inserted_keepsPriority kept inserted matched.nodes wf.allocated) ?_
      exact fun _ _ => rfl
    · exact keepsPriority_congr kept (fun _ _ => rfl)

/-- The state in which a command runs its add is itself well formed and dated. -/
theorem runsAdd_state (wf : WellFormed engine) (dated : Dated engine) {command : Command}
    {before : MatchingEngine} (runs : RunsAdd engine command before cmd) :
    WellFormed before ∧ Dated before := by
  cases command with
  | add issued =>
    obtain ⟨rfl, -⟩ := runs
    exact ⟨wf, dated⟩
  | cancel issued => exact absurd runs (by simp [RunsAdd])
  | replace issued =>
    obtain ⟨loc, order, events, entry, -, cancelled, -⟩ := runs
    obtain ⟨taken, mid, out, ran⟩ := cancel_known wf ⟨issued.symbol, issued.orderId⟩ entry
    rw [cancelled] at ran
    cases ran
    exact ⟨out.wellFormed, takenOut_dated dated out⟩

/-- After every run, every level is in time order, and whatever command comes
next, the add it runs serves the orders of each queue in priority order. -/
theorem every_run_respects_priority (commands : List Command) :
    ∃ engine outcomes, run MatchingEngine.apply {} commands = .ok (engine, outcomes) ∧
      LevelsByTime engine ∧
      ∀ command before issued after outcome, RunsAdd engine command before issued →
        before.add issued = .ok (after, outcome) → KeepsPriority before after := by
  obtain ⟨engine, outcomes, ran, wf, dated⟩ := Runs.run_invariant (fun _ _ => True)
    (fun engine => WellFormed engine ∧ Dated engine)
    (fun engine command held _ => by
      obtain ⟨next, outcome, ran, wf⟩ := apply_wellFormed held.1 command
      exact ⟨next, outcome, ran, wf, apply_dated held.1 held.2 ran⟩)
    ⟨wellFormed_empty, dated_empty⟩ (Runs.meets_of_forall (fun _ _ => trivial) commands)
  refine ⟨engine, outcomes, ran, levelsByTime wf dated, ?_⟩
  intro command before issued after outcome runs added
  obtain ⟨beforeWf, beforeDated⟩ := runsAdd_state wf dated runs
  exact add_keepsPriority beforeWf beforeDated added

end Exchange.PriceTimePriority
