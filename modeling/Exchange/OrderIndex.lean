import Exchange.EngineInvariant

/-! The order index as a directory of the books. When no order comes to rest
under an id that another resting order still has, the index leads from every
resting order's id to that order and to nothing else. Nothing in the engine
refuses a live id, so the condition is on the commands. -/
namespace Exchange.OrderIndex
open EngineSteps EngineInvariant

/-- The index locates every resting order by its id. -/
def Indexed (engine : MatchingEngine) : Prop :=
  ∀ symbol side, ∀ order ∈ engine.resting symbol side,
    engine.index.lookup order.orderId = some ⟨symbol, side, order.priceTicks, order.addr⟩

/-- No two resting orders share an id, each is the one its id maps to, and a
cancel of that id, under any symbol, takes out that order and reports its
remaining quantity. -/
structure Cancellable (engine : MatchingEngine) : Prop where
  once : ∀ symbol side, ((engine.resting symbol side).map (fun order => order.orderId)).Nodup
  apart : ∀ symbol side, ∀ order ∈ engine.resting symbol side,
    ∀ symbol' side', ∀ other ∈ engine.resting symbol' side',
      order.orderId = other.orderId → symbol = symbol' ∧ side = side' ∧ order = other
  indexed : Indexed engine
  cancels : ∀ symbol side, ∀ order ∈ engine.resting symbol side, ∀ named,
    ∃ next, Removed engine order next ∧
      engine.cancel ⟨named, order.orderId⟩ = .ok (next, [⟨engine.sequence + 1, .cancelled, named,
        [(.orderId, .int order.orderId), (.remaining, .int order.remaining)]⟩])

/-- If a part of the order comes to rest, it rests beside no order with its id:
the resting ones with this id are those it has taken out on its way. -/
def RestsAlone (engine : MatchingEngine) (cmd : AddOrder) : Prop :=
  rests cmd (engine.walkOf cmd).remaining → ∀ order ∈ engine.orders, order.orderId = cmd.orderId →
    order ∈ (engine.walkOf cmd).steps.filterMap Step.removed

instance (engine : MatchingEngine) (cmd : AddOrder) : Decidable (RestsAlone engine cmd) :=
  inferInstanceAs (Decidable (_ → _))

/-- What a replace goes on with once the old order is out: the engine without
it, and the order to add. -/
def reAdd (engine : MatchingEngine) (cmd : ReplaceOrder) : Option (MatchingEngine × AddOrder) :=
  match engine.index.lookup cmd.orderId with
  | none => none
  | some loc =>
    match engine.deref loc, engine.cancel ⟨cmd.symbol, cmd.orderId⟩ with
    | .ok order, .ok (mid, _) => some (mid, MatchingEngine.replacementOrder cmd order.participantId loc.side)
    | _, _ => none

/-- No order comes to rest under an id that another resting order still has. -/
def FreeId (engine : MatchingEngine) : Command → Prop
  | .add cmd => RestsAlone engine cmd
  | .cancel _ => True
  | .replace cmd => ∀ added ∈ reAdd engine cmd, RestsAlone added.1 added.2

instance (engine : MatchingEngine) : ∀ command, Decidable (FreeId engine command)
  | .add _ => inferInstanceAs (Decidable (RestsAlone _ _))
  | .cancel _ => inferInstanceAs (Decidable True)
  | .replace _ => inferInstanceAs (Decidable (∀ _ ∈ reAdd _ _, _))

/-- An order that may come to rest does not carry the id of a resting order.
The order a replace takes out first does not count. Enough for `FreeId`, and
decided without matching. -/
def NoLiveId (engine : MatchingEngine) : Command → Prop
  | .add cmd => cmd.timeInForce = .gtc → 0 < cmd.quantity →
      ∀ order ∈ engine.orders, order.orderId ≠ cmd.orderId
  | .cancel _ => True
  | .replace cmd => cmd.timeInForce = .gtc → 0 < cmd.newQuantity →
      (engine.index.lookup cmd.orderId).isSome → cmd.newOrderId ≠ cmd.orderId →
      ∀ order ∈ engine.orders, order.orderId ≠ cmd.newOrderId

instance (engine : MatchingEngine) : ∀ command, Decidable (NoLiveId engine command)
  | .add _ => inferInstanceAs (Decidable (_ → _))
  | .cancel _ => inferInstanceAs (Decidable True)
  | .replace _ => inferInstanceAs (Decidable (_ → _))

variable {engine mid next : MatchingEngine} {cmd : AddOrder} {order : Node}

/-- The id decides where a resting order is, hence which one it is. -/
theorem same_id_same_order (wf : WellFormed engine) (indexed : Indexed engine)
    {symbol symbol' : Bytes} {side side' : Side} {other : Node}
    (member : order ∈ engine.resting symbol side) (member' : other ∈ engine.resting symbol' side')
    (same : order.orderId = other.orderId) : symbol = symbol' ∧ side = side' ∧ order = other := by
  have first := indexed symbol side order member
  have second := indexed symbol' side' other member'
  rw [same, second] at first
  simp only [Option.some.injEq, Location.mk.injEq] at first
  obtain ⟨rfl, rfl, -, addr⟩ := first
  exact ⟨rfl, rfl, List.inj_on_of_nodup_map (wf.distinct _ _) member member' addr.symm⟩

theorem indexed_empty : Indexed {} := by
  intro symbol side order member
  cases side <;> exact absurd member (by simp [MatchingEngine.resting, MatchingEngine.levels,
    MatchingEngine.bookFor, Book.side])

/-- A node the walk leaves is not one it removed. -/
theorem kept_not_removed {remaining : Int64} {queue : List Node}
    (distinct : (queue.map Node.addr).Nodup) {held gone : Node}
    (kept : held ∈ (walk cmd remaining queue).rest)
    (removed : gone ∈ (walk cmd remaining queue).steps.filterMap Step.removed) :
    held.addr ≠ gone.addr := by
  rw [walk_addrs cmd remaining queue, List.nodup_append] at distinct
  exact Ne.symm (distinct.2.2 _ (List.mem_map_of_mem removed) _ (List.mem_map_of_mem kept))

theorem removed_from_queue {remaining : Int64} {queue : List Node} {gone : Node}
    (removed : gone ∈ (walk cmd remaining queue).steps.filterMap Step.removed) : gone ∈ queue := by
  obtain ⟨kept, shape, -⟩ := MatchWalk.walk_rest cmd remaining queue
  rw [shape]
  exact List.mem_append_left _ removed

/-- What a walk removes is forgotten, what it keeps is still located. -/
theorem matched_indexed (wf : WellFormed engine) (indexed : Indexed engine)
    (matched : Matched engine cmd mid) : Indexed mid := by
  have survives : ∀ symbol side, ∀ original ∈ engine.resting symbol side,
      original ∉ (engine.walkOf cmd).steps.filterMap Step.removed →
      mid.index.lookup original.orderId = some ⟨symbol, side, original.priceTicks, original.addr⟩ := by
    intro symbol side original held kept
    rw [matched.index, forgetAll_lookup]
    refine ⟨indexed symbol side original held, fun gone removed sameId => ?_⟩
    obtain ⟨-, -, same⟩ := same_id_same_order wf indexed (removed_from_queue removed) held sameId
    exact kept (same ▸ removed)
  intro symbol side order member
  by_cases here : symbol = cmd.symbol ∧ side = opposite cmd.side
  · obtain ⟨rfl, rfl⟩ := here
    rw [matched.rest] at member
    obtain ⟨original, held, left, rfl, -⟩ := MatchWalk.mem_walk_rest member
    exact survives _ _ original held fun removed => kept_not_removed (wf.distinct _ _) member removed rfl
  · rw [resting_of_levels (matched.elsewhere symbol side (by tauto))] at member
    refine survives _ _ order member fun removed => ?_
    obtain ⟨sameSymbol, sameSide, -⟩ :=
      same_id_same_order wf indexed member (removed_from_queue removed) rfl
    exact here ⟨sameSymbol, sameSide⟩

theorem inserted_indexed (indexed : Indexed engine) (inserted : Inserted engine order next)
    (index : next.index = engine.index.insert order.orderId
      ⟨order.symbol, order.side, order.priceTicks, order.addr⟩)
    (fresh : ∀ symbol side, ∀ held ∈ engine.resting symbol side, held.orderId ≠ order.orderId) :
    Indexed next := by
  intro symbol side held member
  rw [index]
  rcases (mem_inserted inserted).mp member with old | ⟨rfl, rfl, rfl⟩
  · rw [AList.lookup_insert_ne (fresh symbol side held old)]
    exact indexed symbol side held old
  · exact AList.lookup_insert _

theorem removed_indexed (wf : WellFormed engine) (indexed : Indexed engine)
    (removed : Removed engine order next) (member : order ∈ engine.resting order.symbol order.side)
    (index : next.index = engine.index.erase order.orderId) : Indexed next := by
  intro symbol side held still
  have before := mem_removed removed still
  have different : held.orderId ≠ order.orderId := by
    intro same
    obtain ⟨rfl, rfl, rfl⟩ := same_id_same_order wf indexed before member same
    -- The removed node is gone from the only queue it was in.
    obtain ⟨ahead, behind, whole, left⟩ := removed.queue
    have distinct := wf.distinct held.symbol held.side
    rw [whole, List.map_append, List.map_cons, List.nodup_middle, List.nodup_cons,
      ← List.map_append] at distinct
    rw [left] at still
    exact distinct.1 (List.mem_map_of_mem still)
  rw [index, AList.lookup_erase_ne different]
  exact indexed symbol side held before

theorem indexed_congr (indexed : Indexed engine)
    (levels : ∀ symbol side, next.levels symbol side = engine.levels symbol side)
    (index : next.index = engine.index) : Indexed next := by
  intro symbol side order member
  rw [MatchingEngine.resting, levels] at member
  rw [index]
  exact indexed symbol side order member

/-- What the walk does not take out stays, if with less remaining. -/
theorem stays_of_not_removed (matched : Matched engine cmd mid) {symbol : Bytes} {side : Side}
    (member : order ∈ engine.resting symbol side)
    (kept : order ∉ (engine.walkOf cmd).steps.filterMap Step.removed) :
    ∃ held ∈ mid.resting symbol side, held.orderId = order.orderId := by
  by_cases here : symbol = cmd.symbol ∧ side = opposite cmd.side
  · obtain ⟨rfl, rfl⟩ := here
    obtain ⟨rest, shape, left⟩ :=
      MatchWalk.walk_rest cmd cmd.quantity (engine.resting cmd.symbol (opposite cmd.side))
    rw [shape] at member
    have behind := (List.mem_append.mp member).resolve_left kept
    rw [matched.rest]
    rcases left with same | ⟨first, qty, tail, rfl, -, -, shrunk⟩
    · exact ⟨order, by rw [MatchingEngine.walkOf, same]; exact behind, rfl⟩
    · rw [MatchingEngine.walkOf, shrunk]
      rcases List.mem_cons.mp behind with rfl | later
      · exact ⟨_, List.mem_cons_self .., rfl⟩
      · exact ⟨order, List.mem_cons_of_mem _ later, rfl⟩
  · rw [resting_of_levels (matched.elsewhere symbol side (by tauto))]
    exact ⟨order, member, rfl⟩

/-- An id is free after the walk exactly when the walk took out the orders that had it. -/
theorem free_after_walk_iff (wf : WellFormed engine) (indexed : Indexed engine) (matched : Matched engine cmd mid) :
    (∀ symbol side, ∀ held ∈ mid.resting symbol side, held.orderId ≠ cmd.orderId) ↔
      ∀ order ∈ engine.orders, order.orderId = cmd.orderId →
        order ∈ (engine.walkOf cmd).steps.filterMap Step.removed := by
  constructor
  · intro free order member named
    by_contra kept
    obtain ⟨symbol, side, rests⟩ := mem_orders.mp member
    obtain ⟨held, still, same⟩ := stays_of_not_removed matched rests kept
    exact free symbol side held still (same.trans named)
  · intro gone symbol side held member named
    obtain ⟨original, before, left, rfl, -⟩ := mem_matched matched member
    have removed := gone original (mem_orders.mpr ⟨symbol, side, before⟩) named
    obtain ⟨rfl, rfl, -⟩ := same_id_same_order wf indexed before (removed_from_queue removed) rfl
    rw [matched.rest] at member
    exact kept_not_removed (wf.distinct _ _) member removed rfl

/-- An add keeps the directory exactly when what rests of it rests alone. -/
theorem add_indexed_iff (wf : WellFormed engine) (indexed : Indexed engine) {outcome : Outcome}
    (ran : engine.add cmd = .ok (next, outcome)) : Indexed next ↔ RestsAlone engine cmd := by
  obtain ⟨_, _, ran', nextWf⟩ := add_wellFormed wf cmd
  rw [ran] at ran'
  cases ran'
  cases added_of_ran wf ran with
  | refused refuses =>
    refine iff_of_true (indexed_congr indexed (fun symbol side => levels_open engine cmd.symbol symbol side) rfl) ?_
    intro resting
    have kind := refuses.1
    rw [resting.2] at kind
    cases kind
  | accepted accepts mid matched =>
    have midIndexed := matched_indexed wf indexed matched
    have midWf := matched_wellFormed wf matched
    by_cases resting : rests cmd (engine.walkOf cmd).remaining
    · have inserted := restOrder_inserted (midWf.sides cmd.symbol cmd.side) resting.1
      unfold settled at nextWf ⊢
      rw [if_pos resting] at nextWf ⊢
      rw [RestsAlone, ← free_after_walk_iff wf indexed matched]
      constructor
      · intro nextIndexed _ symbol side held member named
        -- The new order and the one held would have to be the same node.
        have old := (mem_inserted inserted).mpr (.inl member)
        have new := (mem_inserted inserted).mpr (.inr ⟨rfl, rfl, rfl⟩)
        obtain ⟨-, -, same⟩ := same_id_same_order nextWf nextIndexed old new named
        have below := midWf.allocated symbol side held member
        rw [same] at below
        exact lt_irrefl _ below
      · intro free
        exact indexed_congr (inserted_indexed midIndexed inserted rfl (free resting)) (fun _ _ => rfl) rfl
    · unfold settled
      rw [if_neg resting]
      exact iff_of_true (indexed_congr midIndexed (fun _ _ => rfl) rfl) fun rests => absurd rests resting

/-- An add keeps the directory when its id is free, or when it cannot rest. -/
theorem add_indexed (wf : WellFormed engine) (indexed : Indexed engine)
    (fresh : cmd.timeInForce = .gtc → 0 < cmd.quantity →
      ∀ symbol side, ∀ order ∈ engine.resting symbol side, order.orderId ≠ cmd.orderId)
    {outcome : Outcome} (ran : engine.add cmd = .ok (next, outcome)) : Indexed next := by
  refine (add_indexed_iff wf indexed ran).mpr fun resting order member named => ?_
  have started : 0 < cmd.quantity := by
    by_contra stopped
    have idle := MatchWalk.walk_done cmd (not_lt.mp stopped) (engine.resting cmd.symbol (opposite cmd.side))
    have left := resting.1
    rw [MatchingEngine.walkOf, idle] at left
    exact stopped left
  obtain ⟨symbol, side, rests⟩ := mem_orders.mp member
  exact absurd named (fresh resting.2 started symbol side order rests)

/-- Taking out the order of an entry keeps the directory. -/
theorem takenOut_indexed (wf : WellFormed engine) (indexed : Indexed engine) {orderId : Int64} {loc : Location}
    {order : Node} (taken : TakenOut engine orderId loc order next) : Indexed next := by
  have held : order ∈ engine.resting order.symbol order.side := by
    rw [taken.symbol, taken.side]
    exact taken.member
  have index : next.index = engine.index.erase order.orderId := by
    rw [taken.named]
    exact taken.index
  exact removed_indexed wf indexed taken.removed held index

/-- One command whose id is not live keeps the directory. -/
theorem apply_indexed (wf : WellFormed engine) (indexed : Indexed engine) {command : Command}
    (fresh : NoLiveId engine command) {outcome : Outcome}
    (ran : engine.apply command = .ok (next, outcome)) : Indexed next := by
  cases applied_of_ran wf ran with
  | add cmd ran =>
    refine add_indexed wf indexed (fun gtc positive symbol side order member => ?_) ran
    exact fresh gtc positive order (mem_orders.mpr ⟨symbol, side, member⟩)
  | cancelUnknown cmd missing => exact indexed_congr indexed (fun _ _ => rfl) rfl
  | cancelKnown cmd loc order entry taken => exact takenOut_indexed wf indexed taken
  | replaceUnknown cmd missing => exact indexed_congr indexed (fun _ _ => rfl) rfl
  | replaceKnown cmd loc order mid added entry taken ranAdd =>
    have midIndexed := takenOut_indexed wf indexed taken
    refine add_indexed taken.wellFormed midIndexed (fun gtc positive symbol side other member => ?_) ranAdd
    -- The replaced order's own id is free again once it is out.
    by_cases reused : cmd.newOrderId = cmd.orderId
    · intro sameId
      have located := midIndexed symbol side other member
      have gone : mid.index.lookup cmd.orderId = none := by
        rw [taken.index]
        exact AList.lookup_erase _ _
      rw [show other.orderId = cmd.orderId from sameId.trans reused, gone] at located
      cases located
    · exact fresh gtc positive (by simp [entry]) reused other
        (mem_orders.mpr ⟨symbol, side, mem_removed taken.removed member⟩)

/-- Every command succeeds, and keeps the directory exactly when its order rests
under a free id. -/
theorem apply_indexed_iff (wf : WellFormed engine) (indexed : Indexed engine) (command : Command) :
    ∃ next outcome, engine.apply command = .ok (next, outcome) ∧ WellFormed next ∧
      (Indexed next ↔ FreeId engine command) := by
  cases command with
  | add cmd =>
    obtain ⟨next, outcome, ran, nextWf⟩ := add_wellFormed wf cmd
    exact ⟨next, outcome, ran, nextWf, add_indexed_iff wf indexed ran⟩
  | cancel cmd =>
    obtain ⟨next, outcome, ran, nextWf⟩ := apply_wellFormed wf (.cancel cmd)
    have brings : NoLiveId engine (.cancel cmd) := trivial
    exact ⟨next, outcome, ran, nextWf, iff_of_true (apply_indexed wf indexed brings ran) trivial⟩
  | replace cmd =>
    cases entry : engine.index.lookup cmd.orderId with
    | none =>
      refine ⟨_, _, replace_unknown entry, wellFormed_congr wf (fun _ _ => rfl) rfl rfl, ?_⟩
      refine iff_of_true (indexed_congr indexed (fun _ _ => rfl) rfl) ?_
      simp [FreeId, reAdd, entry]
    | some loc =>
      obtain ⟨order, mid, taken, cancelled⟩ := cancel_known wf ⟨cmd.symbol, cmd.orderId⟩ entry
      obtain ⟨next, outcome, added, nextWf⟩ := add_wellFormed taken.wellFormed
        (MatchingEngine.replacementOrder cmd order.participantId loc.side)
      refine ⟨next, _, replace_known entry taken.reached cancelled added, nextWf, ?_⟩
      have onward : reAdd engine cmd =
          some (mid, MatchingEngine.replacementOrder cmd order.participantId loc.side) := by
        simp only [reAdd, entry, taken.reached, cancelled]
      rw [add_indexed_iff taken.wellFormed (takenOut_indexed wf indexed taken) added, FreeId, onward]
      simp

theorem freeId_of_noLiveId (wf : WellFormed engine) (indexed : Indexed engine) {command : Command}
    (fresh : NoLiveId engine command) : FreeId engine command := by
  obtain ⟨next, outcome, ran, -, keeps⟩ := apply_indexed_iff wf indexed command
  exact keeps.mp (apply_indexed wf indexed fresh ran)

theorem cancellable (wf : WellFormed engine) (indexed : Indexed engine) : Cancellable engine where
  once symbol side := by
    have distinct := List.Nodup.of_map _ (wf.distinct symbol side)
    refine List.Nodup.map_on ?_ distinct
    intro order member other member' same
    exact (same_id_same_order wf indexed member member' same).2.2
  apart symbol side order member symbol' side' other member' same :=
    same_id_same_order wf indexed member member' same
  indexed := indexed
  cancels symbol side order member named := by
    have entry := indexed symbol side order member
    obtain ⟨taken, next, out, ran⟩ := cancel_known wf ⟨named, order.orderId⟩ entry
    have same : taken = order := List.inj_on_of_nodup_map (wf.distinct _ _) out.member member out.addr
    subst same
    exact ⟨next, out.removed, ran⟩

theorem meets_freeId {commands : List Command} (fresh : Meets MatchingEngine.apply NoLiveId {} commands) :
    Meets MatchingEngine.apply FreeId {} commands := by
  refine Runs.meets_of_invariant NoLiveId (fun engine => WellFormed engine ∧ Indexed engine)
    (fun engine command held unused => ?_) ⟨wellFormed_empty, indexed_empty⟩ fresh
  have free := freeId_of_noLiveId held.1 held.2 unused
  obtain ⟨next, outcome, ran, wf, keeps⟩ := apply_indexed_iff held.1 held.2 command
  exact ⟨free, next, outcome, ran, wf, keeps.mpr free⟩

/-- In every run every resting order stays cancellable by its id, in every state
the run reaches, exactly when no order comes to rest under an id that another
resting order still has; so it does when no command brings in a live id. -/
theorem stays_cancellable_iff (commands : List Command) :
    ((∀ before, before <+: commands → ∃ engine outcomes,
      run MatchingEngine.apply {} before = .ok (engine, outcomes) ∧ Cancellable engine) ↔
        Meets MatchingEngine.apply FreeId {} commands) ∧
    (Meets MatchingEngine.apply NoLiveId {} commands → Meets MatchingEngine.apply FreeId {} commands) := by
  have exactly : (∀ before, before <+: commands → ∃ engine outcomes,
      run MatchingEngine.apply {} before = .ok (engine, outcomes) ∧ WellFormed engine ∧ Indexed engine) ↔
        Meets MatchingEngine.apply FreeId {} commands :=
    Runs.always_iff WellFormed (fun engine => WellFormed engine ∧ Indexed engine) (fun engine command _ held => by
      obtain ⟨next, outcome, ran, nextWf, keeps⟩ := apply_indexed_iff held.1 held.2 command
      exact ⟨next, outcome, ran, nextWf, (and_iff_right nextWf).trans keeps⟩)
      wellFormed_empty ⟨wellFormed_empty, indexed_empty⟩
  refine ⟨?_, meets_freeId⟩
  rw [← exactly]
  refine forall_congr' fun before => imp_congr_right fun _ => ?_
  constructor
  · rintro ⟨engine, outcomes, ran, held⟩
    obtain ⟨_, _, ran', wf⟩ := run_wellFormed before
    rw [ran] at ran'
    cases ran'
    exact ⟨engine, outcomes, ran, wf, held.indexed⟩
  · rintro ⟨engine, outcomes, ran, wf, indexed⟩
    exact ⟨engine, outcomes, ran, cancellable wf indexed⟩

/-- An ask, and a bid under its id that takes it out and rests with what is left. -/
example : Meets MatchingEngine.apply FreeId {}
    [.add { symbol := ascii "S", orderId := 1, participantId := ascii "A", side := .sell, priceTicks := 100,
            quantity := 5 },
      .add { symbol := ascii "S", orderId := 1, participantId := ascii "B", priceTicks := 100, quantity := 8 }] := by
  decide

/-- The same id submitted twice. -/
def repeatedId : List Command :=
  [.add { symbol := ascii "S", orderId := 1, participantId := ascii "A", priceTicks := 100, quantity := 5 },
    .add { symbol := ascii "S", orderId := 1, participantId := ascii "A", priceTicks := 99, quantity := 5 }]

/-- After a repeated id two orders rest under it, and the index knows one. -/
theorem repeated_id_rests_twice :
    ¬ ∀ commands engine outcomes, run MatchingEngine.apply {} commands = .ok (engine, outcomes) →
      Cancellable engine := by
  intro always
  obtain ⟨engine, outcomes, ran, -⟩ := run_wellFormed repeatedId
  have unique := (always repeatedId engine outcomes ran).once (ascii "S") .buy
  have twice : (engine.resting (ascii "S") .buy).map (fun order => order.orderId) = [1, 1] := by
    have known : (run MatchingEngine.apply {} repeatedId).map
        (fun result => (result.1.resting (ascii "S") .buy).map (fun order => order.orderId)) =
          .ok [1, 1] := by decide
    rw [ran] at known
    exact Except.ok.inj known
  rw [twice] at unique
  exact absurd unique (by decide)

end Exchange.OrderIndex
