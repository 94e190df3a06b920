import Exchange.EngineSteps
import Exchange.Runs

/-! The invariant of every engine a run can reach, for any order ids, repeated
ones included. Every order sits where it says with quantity left, no book is
crossed, nodes are distinct, and no index entry dangles. Under it no command
throws, and each command's effect is the one `EngineSteps` describes. -/
namespace Exchange

/-- The state of an engine between commands. -/
structure WellFormed (engine : MatchingEngine) : Prop where
  sides : ∀ symbol side, SideWellFormed symbol side (engine.levels symbol side)
  uncrossed : ∀ symbol, ∀ bid ∈ engine.resting symbol .buy, ∀ ask ∈ engine.resting symbol .sell,
    bid.priceTicks < ask.priceTicks
  /-- An index entry leads to a node of its book, side and level that has its id. -/
  located : ∀ orderId loc, engine.index.lookup orderId = some loc →
    ∃ order ∈ engine.resting loc.symbol loc.side,
      order.addr = loc.iter ∧ order.priceTicks = loc.price ∧ order.orderId = orderId
  distinct : ∀ symbol side, ((engine.resting symbol side).map Node.addr).Nodup
  allocated : ∀ symbol side, ∀ order ∈ engine.resting symbol side, order.addr < engine.nodes

namespace EngineInvariant
open EngineSteps
variable {engine mid next : MatchingEngine} {cmd : AddOrder} {order : Node}

theorem wellFormed_empty : WellFormed {} where
  sides symbol side := by
    cases side <;> exact PriceLevels.sideWellFormed_empty symbol _
  uncrossed symbol bid member := by
    exact absurd member (by simp [MatchingEngine.resting, MatchingEngine.levels,
      MatchingEngine.bookFor, Book.side])
  located orderId loc entry := by simp at entry
  distinct symbol side := by
    cases side <;> simp [MatchingEngine.resting, MatchingEngine.levels, MatchingEngine.bookFor,
      Book.side]
  allocated symbol side order member := by
    cases side <;> exact absurd member (by simp [MatchingEngine.resting, MatchingEngine.levels,
      MatchingEngine.bookFor, Book.side])

/-- The counter is not part of the invariant, and neither is an opened book. -/
theorem wellFormed_congr (wf : WellFormed engine)
    (levels : ∀ symbol side, next.levels symbol side = engine.levels symbol side)
    (index : next.index = engine.index) (nodes : next.nodes = engine.nodes) : WellFormed next := by
  have resting : ∀ symbol side, next.resting symbol side = engine.resting symbol side := by
    intro symbol side
    simp [MatchingEngine.resting, levels]
  constructor
  · simpa [levels] using wf.sides
  · simpa [resting] using wf.uncrossed
  · simpa [resting, index] using wf.located
  · simpa [resting] using wf.distinct
  · simpa [resting, nodes] using wf.allocated

/-! ## The walk -/

theorem forgetAll_lookup {index : AList (fun _ : Int64 => Location)} {steps : List Step}
    {orderId : Int64} {loc : Location} :
    (forgetAll index steps).lookup orderId = some loc ↔
      index.lookup orderId = some loc ∧
        ∀ gone ∈ steps.filterMap Step.removed, gone.orderId ≠ orderId := by
  unfold forgetAll
  generalize steps.filterMap Step.removed = removed
  induction removed generalizing index with
  | nil => simp
  | cons first rest ih =>
    simp only [List.foldl_cons, ih, List.forall_mem_cons]
    by_cases same : first.orderId = orderId
    · simp [same]
    · rw [AList.lookup_erase_ne (Ne.symm same)]
      tauto

/-- Every order the walk meets is either taken off the book or still there. -/
theorem walk_keeps_or_removes (cmd : AddOrder) (remaining : Int64) {queue : List Node}
    (member : order ∈ queue) :
    order ∈ (walk cmd remaining queue).steps.filterMap Step.removed ∨
      ∃ left, { order with remaining := left } ∈ (walk cmd remaining queue).rest := by
  obtain ⟨kept, shape, left⟩ := MatchWalk.walk_rest cmd remaining queue
  rw [shape, List.mem_append] at member
  refine member.imp_right fun stays => ?_
  rcases left with same | ⟨first, qty, tail, rfl, -, -, same⟩
  · exact ⟨order.remaining, by rw [same]; exact stays⟩
  · rcases List.mem_cons.mp stays with rfl | later
    · exact ⟨_, by rw [same]; exact List.mem_cons_self⟩
    · exact ⟨order.remaining, by rw [same]; exact List.mem_cons_of_mem _ later⟩

/-- Addresses show the walk as a cut: what it removed, then what it left. -/
theorem walk_addrs (cmd : AddOrder) (remaining : Int64) (queue : List Node) :
    queue.map Node.addr = ((walk cmd remaining queue).steps.filterMap Step.removed).map Node.addr ++
      (walk cmd remaining queue).rest.map Node.addr := by
  obtain ⟨kept, shape, same | ⟨first, qty, tail, rfl, -, -, same⟩⟩ :=
    MatchWalk.walk_rest cmd remaining queue
  · rw [same, ← List.map_append, ← shape]
  · rw [same]
    have addrs := congrArg (List.map Node.addr) shape
    simpa using addrs

theorem walk_rest_addrs (cmd : AddOrder) (remaining : Int64) (queue : List Node) :
    (walk cmd remaining queue).rest.map Node.addr <:+ queue.map Node.addr :=
  ⟨_, (walk_addrs cmd remaining queue).symm⟩

/-- What rests after a walk rested before it, with all or some of it left. -/
theorem mem_matched (matched : Matched engine cmd mid) {symbol : Bytes} {side : Side} {order : Node}
    (member : order ∈ mid.resting symbol side) :
    ∃ original ∈ engine.resting symbol side, ∃ left, order = { original with remaining := left } ∧
      (left = original.remaining ∨ (0 < left ∧ left < original.remaining)) := by
  by_cases here : symbol = cmd.symbol ∧ side = opposite cmd.side
  · obtain ⟨rfl, rfl⟩ := here
    rw [matched.rest] at member
    exact MatchWalk.mem_walk_rest member
  · rw [resting_of_levels (matched.elsewhere symbol side (by tauto))] at member
    exact ⟨order, member, order.remaining, rfl, Or.inl rfl⟩

theorem matched_wellFormed (wf : WellFormed engine) (matched : Matched engine cmd mid) :
    WellFormed mid := by
  -- The walked side is the only one that changed; everywhere else the queues are the old ones.
  have elsewhere : ∀ symbol side, ¬ (symbol = cmd.symbol ∧ side = opposite cmd.side) →
      mid.resting symbol side = engine.resting symbol side := by
    intro symbol side away
    exact resting_of_levels (matched.elsewhere symbol side (by tauto))
  have origin : ∀ symbol side, ∀ order ∈ mid.resting symbol side,
      ∃ original ∈ engine.resting symbol side, original.addr = order.addr ∧
        original.priceTicks = order.priceTicks := by
    intro symbol side order member
    obtain ⟨original, held, left, rfl, -⟩ := mem_matched matched member
    exact ⟨original, held, rfl, rfl⟩
  constructor
  · intro symbol side
    by_cases here : symbol = cmd.symbol ∧ side = opposite cmd.side
    · obtain ⟨rfl, rfl⟩ := here
      exact matched.wellFormed
    · rw [matched.elsewhere symbol side (by tauto)]
      exact wf.sides symbol side
  · intro symbol bid bidMember ask askMember
    obtain ⟨oldBid, bidHeld, -, bidPrice⟩ := origin _ _ bid bidMember
    obtain ⟨oldAsk, askHeld, -, askPrice⟩ := origin _ _ ask askMember
    rw [← bidPrice, ← askPrice]
    exact wf.uncrossed symbol oldBid bidHeld oldAsk askHeld
  · intro orderId loc entry
    rw [matched.index, forgetAll_lookup] at entry
    obtain ⟨order, held, addr, price, named⟩ := wf.located orderId loc entry.1
    by_cases here : loc.symbol = cmd.symbol ∧ loc.side = opposite cmd.side
    · rw [here.1, here.2] at held ⊢
      rcases walk_keeps_or_removes cmd cmd.quantity held with gone | ⟨left, kept⟩
      · exact absurd named (entry.2 order gone)
      · refine ⟨{ order with remaining := left }, ?_, addr, price, named⟩
        rw [matched.rest]
        exact kept
    · rw [elsewhere _ _ here]
      exact ⟨order, held, addr, price, named⟩
  · intro symbol side
    by_cases here : symbol = cmd.symbol ∧ side = opposite cmd.side
    · obtain ⟨rfl, rfl⟩ := here
      rw [matched.rest]
      exact (wf.distinct _ _).sublist (walk_rest_addrs cmd _ _).sublist
    · rw [elsewhere symbol side here]
      exact wf.distinct symbol side
  · intro symbol side order member
    obtain ⟨original, held, addr, -⟩ := origin symbol side order member
    rw [matched.nodes, ← addr]
    exact wf.allocated symbol side original held

/-! ## One order in or out -/

theorem mem_inserted (inserted : Inserted engine order next) {held : Node} {symbol : Bytes} {side : Side} :
    held ∈ next.resting symbol side ↔ held ∈ engine.resting symbol side ∨
      (held = order ∧ symbol = order.symbol ∧ side = order.side) := by
  by_cases here : symbol = order.symbol ∧ side = order.side
  · obtain ⟨rfl, rfl⟩ := here
    obtain ⟨ahead, behind, before, after, -, -⟩ := inserted.queue
    rw [before, after]
    simp only [List.mem_append, List.mem_cons]
    tauto
  · have same : next.resting symbol side = engine.resting symbol side := by
      exact resting_of_levels (inserted.elsewhere symbol side (by tauto))
    rw [same]
    tauto

theorem inserted_wellFormed (wf : WellFormed engine) (inserted : Inserted engine order next)
    (fresh : order.addr = engine.nodes) (nodes : next.nodes = engine.nodes + 1)
    (index : next.index = engine.index.insert order.orderId
      ⟨order.symbol, order.side, order.priceTicks, order.addr⟩)
    (apart : ∀ facing ∈ engine.resting order.symbol (opposite order.side),
      beyond (opposite order.side) order.priceTicks facing.priceTicks = true) : WellFormed next := by
  constructor
  · intro symbol side
    by_cases here : symbol = order.symbol ∧ side = order.side
    · obtain ⟨rfl, rfl⟩ := here
      exact inserted.wellFormed
    · rw [inserted.elsewhere symbol side (by tauto)]
      exact wf.sides symbol side
  · intro symbol bid bidMember ask askMember
    rw [mem_inserted inserted] at bidMember askMember
    rcases bidMember with bidOld | ⟨rfl, rfl, buying⟩
    · rcases askMember with askOld | ⟨rfl, rfl, selling⟩
      · exact wf.uncrossed symbol bid bidOld ask askOld
      · rw [← selling] at apart
        simpa [opposite, beyond] using apart bid bidOld
    · rcases askMember with askOld | ⟨-, -, selling⟩
      · rw [← buying] at apart
        simpa [opposite, beyond] using apart ask askOld
      · rw [← buying] at selling
        cases selling
  · intro orderId loc entry
    rw [index] at entry
    by_cases same : orderId = order.orderId
    · subst same
      rw [AList.lookup_insert] at entry
      cases entry
      exact ⟨order, (mem_inserted inserted).mpr (Or.inr ⟨rfl, rfl, rfl⟩), rfl, rfl, rfl⟩
    · rw [AList.lookup_insert_ne same] at entry
      obtain ⟨held, member, where_⟩ := wf.located orderId loc entry
      exact ⟨held, (mem_inserted inserted).mpr (Or.inl member), where_⟩
  · intro symbol side
    by_cases here : symbol = order.symbol ∧ side = order.side
    · obtain ⟨rfl, rfl⟩ := here
      obtain ⟨ahead, behind, before, after, -, -⟩ := inserted.queue
      have old := wf.distinct order.symbol order.side
      rw [before] at old
      rw [after, List.map_append, List.map_cons, List.nodup_middle, List.nodup_cons, ← List.map_append]
      refine ⟨?_, old⟩
      intro taken
      obtain ⟨held, member, sameAddr⟩ := List.mem_map.mp taken
      have bound := wf.allocated order.symbol order.side held (by rw [before]; exact member)
      omega
    · have same : next.resting symbol side = engine.resting symbol side := by
        exact resting_of_levels (inserted.elsewhere symbol side (by tauto))
      rw [same]
      exact wf.distinct symbol side
  · intro symbol side held member
    rw [nodes]
    rcases (mem_inserted inserted).mp member with old | ⟨rfl, -, -⟩
    · have bound := wf.allocated symbol side held old
      omega
    · omega

theorem mem_removed (removed : Removed engine order next) {held : Node} {symbol : Bytes} {side : Side}
    (member : held ∈ next.resting symbol side) : held ∈ engine.resting symbol side := by
  by_cases here : symbol = order.symbol ∧ side = order.side
  · obtain ⟨rfl, rfl⟩ := here
    obtain ⟨ahead, behind, before, after⟩ := removed.queue
    rw [after, List.mem_append] at member
    rw [before, List.mem_append, List.mem_cons]
    exact member.imp_right Or.inr
  · rw [resting_of_levels (removed.elsewhere symbol side (by tauto))] at member
    exact member

theorem mem_of_removed (removed : Removed engine order next) {held : Node} {symbol : Bytes} {side : Side}
    (member : held ∈ engine.resting symbol side) : held = order ∨ held ∈ next.resting symbol side := by
  by_cases here : symbol = order.symbol ∧ side = order.side
  · obtain ⟨rfl, rfl⟩ := here
    obtain ⟨ahead, behind, before, after⟩ := removed.queue
    rw [before, List.mem_append, List.mem_cons] at member
    rw [after, List.mem_append]
    tauto
  · right
    rw [resting_of_levels (removed.elsewhere symbol side (by tauto))]
    exact member

theorem removed_wellFormed (wf : WellFormed engine) (removed : Removed engine order next)
    (nodes : next.nodes = engine.nodes) (index : next.index = engine.index.erase order.orderId) :
    WellFormed next := by
  constructor
  · intro symbol side
    by_cases here : symbol = order.symbol ∧ side = order.side
    · obtain ⟨rfl, rfl⟩ := here
      exact removed.wellFormed
    · rw [removed.elsewhere symbol side (by tauto)]
      exact wf.sides symbol side
  · intro symbol bid bidMember ask askMember
    exact wf.uncrossed symbol bid (mem_removed removed bidMember) ask (mem_removed removed askMember)
  · intro orderId loc entry
    rw [index] at entry
    by_cases same : orderId = order.orderId
    · subst same
      rw [AList.lookup_erase] at entry
      cases entry
    · rw [AList.lookup_erase_ne same] at entry
      obtain ⟨held, member, addr, price, named⟩ := wf.located orderId loc entry
      rcases mem_of_removed removed member with rfl | kept
      · exact absurd named.symm same
      · exact ⟨held, kept, addr, price, named⟩
  · intro symbol side
    by_cases here : symbol = order.symbol ∧ side = order.side
    · obtain ⟨rfl, rfl⟩ := here
      obtain ⟨ahead, behind, before, after⟩ := removed.queue
      have old := wf.distinct order.symbol order.side
      rw [before, List.map_append, List.map_cons, List.nodup_middle, List.nodup_cons,
        ← List.map_append] at old
      rw [after]
      exact old.2
    · have same : next.resting symbol side = engine.resting symbol side := by
        exact resting_of_levels (removed.elsewhere symbol side (by tauto))
      rw [same]
      exact wf.distinct symbol side
  · intro symbol side held member
    rw [nodes]
    exact wf.allocated symbol side held (mem_removed removed member)

/-! ## Commands -/

/-- A crossed book would need a bid and an ask at touching prices. -/
theorem checkNotCrossed_ok (wf : WellFormed engine) (symbol : Bytes) :
    checkNotCrossed symbol (engine.bookFor symbol) = .ok () := by
  unfold checkNotCrossed
  rw [PriceLevels.bestLevel_eq_head, PriceLevels.bestLevel_eq_head]
  cases bids : bestFirst .buy (engine.bookFor symbol).bids with
  | nil => simp
  | cons bestBid lowerBids =>
    cases asks : bestFirst .sell (engine.bookFor symbol).asks with
    | nil => simp
    | cons bestAsk higherAsks =>
      have bidLevel := PriceLevels.bestFirst_wellFormed (wf.sides symbol .buy) bestBid
        (by simp [MatchingEngine.levels, Book.side, bids])
      have askLevel := PriceLevels.bestFirst_wellFormed (wf.sides symbol .sell) bestAsk
        (by simp [MatchingEngine.levels, Book.side, asks])
      obtain ⟨bid, bidHeld⟩ := List.exists_mem_of_ne_nil _ bidLevel.1
      obtain ⟨ask, askHeld⟩ := List.exists_mem_of_ne_nil _ askLevel.1
      have apart := wf.uncrossed symbol bid
        (by simp only [MatchingEngine.resting, MatchingEngine.levels, Book.side, queue, bids,
              List.flatMap_cons, List.mem_append]
            exact Or.inl bidHeld)
        ask
        (by simp only [MatchingEngine.resting, MatchingEngine.levels, Book.side, queue, asks,
              List.flatMap_cons, List.mem_append]
            exact Or.inl askHeld)
      rw [(bidLevel.2 bid bidHeld).price, (askLevel.2 ask askHeld).price] at apart
      simp [not_le.mpr apart]

/-- A queue meets the limit once: behind an order that stops the loop, every order would. -/
theorem queue_meets_limit_once (wf : WellFormed engine) (cmd : AddOrder) :
    (engine.resting cmd.symbol (opposite cmd.side)).Pairwise fun earlier later =>
      priceStops cmd earlier.priceTicks = true → priceStops cmd later.priceTicks = true := by
  apply (PriceLevels.queue_sorted (wf.sides cmd.symbol (opposite cmd.side))).imp
  intro earlier later before stops
  simp only [priceStops, Bool.and_eq_true] at stops ⊢
  refine ⟨stops.1, ?_⟩
  generalize opposite cmd.side = side at before stops ⊢
  cases side <;> simp only [beyond, decide_eq_true_eq, decide_eq_false_iff_not] at before stops ⊢
  · exact lt_of_le_of_lt (not_lt.mp before) stops.2
  · exact lt_of_lt_of_le stops.2 (not_lt.mp before)

/-- A remainder that rests lies beyond the limit of everything still facing it. -/
theorem rest_is_apart (wf : WellFormed engine) (matched : Matched engine cmd mid)
    (resting : rests cmd (engine.walkOf cmd).remaining) :
    ∀ facing ∈ mid.resting cmd.symbol (opposite cmd.side),
      beyond (opposite cmd.side) cmd.priceTicks facing.priceTicks = true := by
  intro facing member
  rw [matched.rest] at member
  have stops := MatchWalk.walk_rest_stops cmd cmd.quantity (queue_meets_limit_once wf cmd)
    resting.1 facing member
  simpa [priceStops, resting.2] using stops

theorem settled_wellFormed (wf : WellFormed engine) (matched : Matched engine cmd mid) :
    WellFormed (settled mid cmd (engine.walkOf cmd).remaining) := by
  have midWf := matched_wellFormed wf matched
  unfold settled
  split
  · rename_i resting
    have inserted := restOrder_inserted (midWf.sides cmd.symbol cmd.side) resting.1
    have restedWf := inserted_wellFormed midWf inserted rfl rfl rfl (rest_is_apart wf matched resting)
    exact wellFormed_congr restedWf (fun _ _ => rfl) rfl rfl
  · exact wellFormed_congr midWf (fun _ _ => rfl) rfl rfl

theorem settleRemainder_ok (wf : WellFormed engine) (matched : Matched engine cmd mid) :
    mid.settleRemainder cmd (engine.walkOf cmd).remaining =
      .ok (settled mid cmd (engine.walkOf cmd).remaining,
        numbered cmd.symbol mid.sequence (closing cmd (engine.walkOf cmd).remaining)) := by
  by_cases more : 0 < (engine.walkOf cmd).remaining
  · cases tif : cmd.timeInForce with
    | gtc =>
      have resting : rests cmd (engine.walkOf cmd).remaining := ⟨more, tif⟩
      have notCrossed := checkNotCrossed_ok (settled_wellFormed wf matched) cmd.symbol
      simp only [settled, resting, ↓reduceIte, MatchingEngine.bookFor] at notCrossed
      simp only [MatchingEngine.settleRemainder, more, ↓reduceIte, tif, MatchingEngine.event,
        MatchingEngine.bookFor, notCrossed, bind, Except.bind]
      simp [settled, resting, closing, more, tif, numbered, MatchingEngine.restOrder,
        MatchingEngine.setBook]
    | ioc =>
      simp [MatchingEngine.settleRemainder, more, tif, MatchingEngine.event, settled, rests, closing,
        numbered]
    | market =>
      simp [MatchingEngine.settleRemainder, more, tif, MatchingEngine.event, settled, rests, closing,
        numbered]
    | fok => simp [MatchingEngine.settleRemainder, more, tif, settled, rests, closing, numbered]
  · simp [MatchingEngine.settleRemainder, more, settled, rests, closing, numbered]

/-- What an accepted add does, and that it does not throw. -/
theorem add_accepted (wf : WellFormed engine) (accepted : ¬ engine.refuses cmd) :
    ∃ mid, Matched engine cmd mid ∧
      WellFormed (settled mid cmd (engine.walkOf cmd).remaining) ∧
      engine.add cmd = .ok (settled mid cmd (engine.walkOf cmd).remaining,
        ⟨numbered cmd.symbol engine.sequence (addReports cmd (engine.walkOf cmd)),
          (engine.walkOf cmd).steps.filterMap (Step.trade cmd)⟩) := by
  obtain ⟨mid, matched, ran⟩ := add_matched (wf.sides _ _) accepted
  refine ⟨mid, matched, settled_wellFormed wf matched, ?_⟩
  rw [ran, settleRemainder_ok wf matched]
  simp only [Except.map, addReports, matched.sequence]
  rw [← List.cons_append, numbered_append]
  have count : engine.sequence + 1 + ((engine.walkOf cmd).steps.length : Int) =
      engine.sequence + (((engine.walkOf cmd).steps.length + 1 : Nat) : Int) := by
    push_cast
    omega
  simp only [List.length_cons, List.length_map, count]

/-- A refused add opens its book and counts one event. -/
theorem refused_wellFormed (wf : WellFormed engine) (cmd : AddOrder) :
    WellFormed { engine.setBook cmd.symbol (engine.bookFor cmd.symbol) with
      sequence := engine.sequence + 1 } :=
  wellFormed_congr wf (fun symbol side => levels_open engine cmd.symbol symbol side) rfl rfl

/-- Index entries can be followed: the node is there and has the entry's id. -/
theorem deref_ok (wf : WellFormed engine) {orderId : Int64} {loc : Location}
    (entry : engine.index.lookup orderId = some loc) :
    ∃ order, engine.deref loc = .ok order ∧ order ∈ engine.resting loc.symbol loc.side ∧
      order.addr = loc.iter ∧ order.priceTicks = loc.price ∧ order.orderId = orderId := by
  obtain ⟨order, member, addr, price, named⟩ := wf.located orderId loc entry
  obtain ⟨-, level, found, inside⟩ := PriceLevels.level_of_mem_queue (wf.sides _ _) member
  rw [price] at found
  cases held : level.find? (fun node => node.addr = loc.iter) with
  | none =>
    have absent := List.find?_eq_none.mp held order inside
    simp [addr] at absent
  | some node =>
    have nodeAddr : node.addr = loc.iter := by simpa using List.find?_some held
    have nodeMember : node ∈ engine.resting loc.symbol loc.side :=
      PriceLevels.mem_queue.mpr ⟨loc.price, level, found, List.mem_of_find?_eq_some held⟩
    have same : node = order := List.inj_on_of_nodup_map (wf.distinct _ _) nodeMember member
      (nodeAddr.trans addr.symm)
    refine ⟨order, ?_, member, addr, price, named⟩
    have find : ((engine.bookFor loc.symbol).side loc.side).find loc.price = some level := found
    simp [MatchingEngine.deref, find, held, same]

theorem cancel_unknown {cmd : CancelOrder} (missing : engine.index.lookup cmd.orderId = none) :
    engine.cancel cmd = .ok ({ engine with sequence := engine.sequence + 1 },
      numbered cmd.symbol engine.sequence [(.rejected, [(.orderId, .int cmd.orderId),
        (.reason, .str (ascii "UNKNOWN_ORDER"))])]) := by
  simp [MatchingEngine.cancel, missing, MatchingEngine.reject, MatchingEngine.event, numbered]

/-- `next` is `engine` after its index entry for an id was followed to `order`
and that order taken out. -/
structure TakenOut (engine : MatchingEngine) (orderId : Int64) (loc : Location) (order : Node)
    (next : MatchingEngine) : Prop where
  reached : engine.deref loc = .ok order
  named : order.orderId = orderId
  symbol : order.symbol = loc.symbol
  side : order.side = loc.side
  addr : order.addr = loc.iter
  member : order ∈ engine.resting loc.symbol loc.side
  removed : Removed engine order next
  wellFormed : WellFormed next
  index : next.index = engine.index.erase orderId
  nodes : next.nodes = engine.nodes
  sequence : next.sequence = engine.sequence + 1
  books : ∀ symbol, symbol ≠ loc.symbol → next.books.lookup symbol = engine.books.lookup symbol
  opened : loc.symbol ∈ next.books

/-- A cancel of a known id takes out the node its index entry points to. -/
theorem cancel_known (wf : WellFormed engine) (cmd : CancelOrder) {loc : Location}
    (entry : engine.index.lookup cmd.orderId = some loc) :
    ∃ order next, TakenOut engine cmd.orderId loc order next ∧
      engine.cancel cmd = .ok (next, numbered cmd.symbol engine.sequence
        [(.cancelled, [(.orderId, .int cmd.orderId), (.remaining, .int order.remaining)])]) := by
  obtain ⟨order, reached, member, addr, price, named⟩ := deref_ok wf entry
  obtain ⟨-, -, -, symbol, side, removed⟩ := removeResting_removed entry reached (wf.sides _ _)
  have index : (engine.removeResting cmd.orderId).index = engine.index.erase cmd.orderId := by
    simp [MatchingEngine.removeResting, entry]
  have nodes : (engine.removeResting cmd.orderId).nodes = engine.nodes := by
    simp [MatchingEngine.removeResting, entry, MatchingEngine.setBook]
  have sequence : (engine.removeResting cmd.orderId).sequence = engine.sequence := by
    simp [MatchingEngine.removeResting, entry, MatchingEngine.setBook]
  have leftWf := removed_wellFormed wf removed nodes (by rw [named]; exact index)
  refine ⟨order, { engine.removeResting cmd.orderId with sequence := engine.sequence + 1 }, ?_, ?_⟩
  · refine ⟨reached, named, symbol, side, addr, member,
      ⟨removed.elsewhere, removed.wellFormed, removed.queue⟩,
      wellFormed_congr leftWf (fun _ _ => rfl) rfl rfl, index, nodes, rfl, ?_, ?_⟩
    · intro wanted different
      simp [MatchingEngine.removeResting, entry, MatchingEngine.setBook, AList.lookup_insert_ne different]
    · simp [MatchingEngine.removeResting, entry, MatchingEngine.setBook]
  · simp only [MatchingEngine.cancel, entry, reached, bind, Except.bind, MatchingEngine.event, numbered,
      sequence]

theorem add_wellFormed (wf : WellFormed engine) (cmd : AddOrder) :
    ∃ next outcome, engine.add cmd = .ok (next, outcome) ∧ WellFormed next := by
  by_cases refused : engine.refuses cmd
  · exact ⟨_, _, add_refused refused, refused_wellFormed wf cmd⟩
  · obtain ⟨mid, -, after, ran⟩ := add_accepted wf refused
    exact ⟨_, _, ran, after⟩

/-- What an add of a sound engine has done. -/
inductive Added (engine : MatchingEngine) (cmd : AddOrder) : MatchingEngine → Outcome → Prop where
  | refused (refuses : engine.refuses cmd) :
      Added engine cmd { engine.setBook cmd.symbol (engine.bookFor cmd.symbol) with sequence := engine.sequence + 1 }
        ⟨numbered cmd.symbol engine.sequence [(.rejected, [(.orderId, .int cmd.orderId),
          (.reason, .str (ascii "FOK_UNFILLABLE"))])], []⟩
  | accepted (accepts : ¬ engine.refuses cmd) (mid : MatchingEngine) (matched : Matched engine cmd mid) :
      Added engine cmd (settled mid cmd (engine.walkOf cmd).remaining)
        ⟨numbered cmd.symbol engine.sequence (addReports cmd (engine.walkOf cmd)),
          (engine.walkOf cmd).steps.filterMap (Step.trade cmd)⟩

theorem added_of_ran (wf : WellFormed engine) {outcome : Outcome} (ran : engine.add cmd = .ok (next, outcome)) :
    Added engine cmd next outcome := by
  by_cases refused : engine.refuses cmd
  · rw [add_refused refused] at ran
    cases ran
    exact .refused refused
  · obtain ⟨mid, matched, -, ran'⟩ := add_accepted wf refused
    rw [ran] at ran'
    cases ran'
    exact .accepted refused mid matched

theorem replace_unknown {cmd : ReplaceOrder} (missing : engine.index.lookup cmd.orderId = none) :
    engine.replace cmd = .ok ({ engine with sequence := engine.sequence + 1 },
      ⟨numbered cmd.symbol engine.sequence [(.rejected, [(.orderId, .int cmd.orderId),
        (.reason, .str (ascii "UNKNOWN_ORDER"))])], []⟩) := by
  simp [MatchingEngine.replace, missing, MatchingEngine.reject, MatchingEngine.event, numbered]

/-- A replace of a known id is its cancel followed by its add. -/
theorem replace_known {cmd : ReplaceOrder} {loc : Location} {order : Node} {events : List ExecEvent}
    {outcome : Outcome}
    (entry : engine.index.lookup cmd.orderId = some loc) (reached : engine.deref loc = .ok order)
    (cancelled : engine.cancel ⟨cmd.symbol, cmd.orderId⟩ = .ok (mid, events))
    (added : mid.add (MatchingEngine.replacementOrder cmd order.participantId loc.side) =
      .ok (next, outcome)) :
    engine.replace cmd = .ok (next, ⟨events ++ outcome.events, outcome.trades⟩) := by
  simp only [MatchingEngine.replace, entry, reached, cancelled, added, bind, Except.bind]

theorem apply_cancel {cmd : CancelOrder} {events : List ExecEvent}
    (ran : engine.cancel cmd = .ok (next, events)) :
    engine.apply (.cancel cmd) = .ok (next, ⟨events, []⟩) := by
  simp only [MatchingEngine.apply, ran, bind, Except.bind]

/-- One command of any kind keeps the invariant and does not throw. -/
theorem apply_wellFormed (wf : WellFormed engine) (command : Command) :
    ∃ next outcome, engine.apply command = .ok (next, outcome) ∧ WellFormed next := by
  cases command with
  | add cmd => exact add_wellFormed wf cmd
  | cancel cmd =>
    cases entry : engine.index.lookup cmd.orderId with
    | none =>
      exact ⟨_, _, apply_cancel (cancel_unknown entry), wellFormed_congr wf (fun _ _ => rfl) rfl rfl⟩
    | some loc =>
      obtain ⟨order, next, taken, ran⟩ := cancel_known wf cmd entry
      exact ⟨next, _, apply_cancel ran, taken.wellFormed⟩
  | replace cmd =>
    cases entry : engine.index.lookup cmd.orderId with
    | none => exact ⟨_, _, replace_unknown entry, wellFormed_congr wf (fun _ _ => rfl) rfl rfl⟩
    | some loc =>
      obtain ⟨order, mid, taken, ran⟩ := cancel_known wf ⟨cmd.symbol, cmd.orderId⟩ entry
      obtain ⟨next, outcome, added, nextWf⟩ := add_wellFormed taken.wellFormed
        (MatchingEngine.replacementOrder cmd order.participantId loc.side)
      exact ⟨next, _, replace_known entry taken.reached ran added, nextWf⟩

theorem wellFormed_of_apply (wf : WellFormed engine) {command : Command} {outcome : Outcome}
    (ran : engine.apply command = .ok (next, outcome)) : WellFormed next := by
  obtain ⟨next', outcome', ran', nextWf⟩ := apply_wellFormed wf command
  rw [ran] at ran'
  cases ran'
  exact nextWf

/-- What a command of a sound engine has done: an add; only a count, for an id
no entry knows; or the order of the entry taken out, which a replace follows up
with its add. -/
inductive Applied (engine : MatchingEngine) : Command → MatchingEngine → Outcome → Prop where
  | add (cmd : AddOrder) {next : MatchingEngine} {outcome : Outcome}
      (ran : engine.add cmd = .ok (next, outcome)) : Applied engine (.add cmd) next outcome
  | cancelUnknown (cmd : CancelOrder) (missing : engine.index.lookup cmd.orderId = none) :
      Applied engine (.cancel cmd) { engine with sequence := engine.sequence + 1 }
        ⟨numbered cmd.symbol engine.sequence [(.rejected, [(.orderId, .int cmd.orderId),
          (.reason, .str (ascii "UNKNOWN_ORDER"))])], []⟩
  | cancelKnown (cmd : CancelOrder) (loc : Location) (order : Node) {next : MatchingEngine}
      (entry : engine.index.lookup cmd.orderId = some loc) (taken : TakenOut engine cmd.orderId loc order next) :
      Applied engine (.cancel cmd) next ⟨numbered cmd.symbol engine.sequence
        [(.cancelled, [(.orderId, .int cmd.orderId), (.remaining, .int order.remaining)])], []⟩
  | replaceUnknown (cmd : ReplaceOrder) (missing : engine.index.lookup cmd.orderId = none) :
      Applied engine (.replace cmd) { engine with sequence := engine.sequence + 1 }
        ⟨numbered cmd.symbol engine.sequence [(.rejected, [(.orderId, .int cmd.orderId),
          (.reason, .str (ascii "UNKNOWN_ORDER"))])], []⟩
  | replaceKnown (cmd : ReplaceOrder) (loc : Location) (order : Node) (mid : MatchingEngine) (added : Outcome)
      {next : MatchingEngine}
      (entry : engine.index.lookup cmd.orderId = some loc) (taken : TakenOut engine cmd.orderId loc order mid)
      (ran : mid.add (MatchingEngine.replacementOrder cmd order.participantId loc.side) = .ok (next, added)) :
      Applied engine (.replace cmd) next ⟨numbered cmd.symbol engine.sequence
        [(.cancelled, [(.orderId, .int cmd.orderId), (.remaining, .int order.remaining)])] ++ added.events,
        added.trades⟩

theorem applied_of_ran (wf : WellFormed engine) {command : Command} {outcome : Outcome}
    (ran : engine.apply command = .ok (next, outcome)) : Applied engine command next outcome := by
  cases command with
  | add cmd => exact .add cmd ran
  | cancel cmd =>
    cases entry : engine.index.lookup cmd.orderId with
    | none =>
      rw [apply_cancel (cancel_unknown entry)] at ran
      cases ran
      exact .cancelUnknown cmd entry
    | some loc =>
      obtain ⟨order, next', taken, cancelled⟩ := cancel_known wf cmd entry
      rw [apply_cancel cancelled] at ran
      cases ran
      exact .cancelKnown cmd loc order entry taken
  | replace cmd =>
    rw [MatchingEngine.apply] at ran
    cases entry : engine.index.lookup cmd.orderId with
    | none =>
      rw [replace_unknown entry] at ran
      cases ran
      exact .replaceUnknown cmd entry
    | some loc =>
      obtain ⟨order, mid, taken, cancelled⟩ := cancel_known wf ⟨cmd.symbol, cmd.orderId⟩ entry
      obtain ⟨next', added, ranAdd, -⟩ := add_wellFormed taken.wellFormed
        (MatchingEngine.replacementOrder cmd order.participantId loc.side)
      rw [replace_known entry taken.reached cancelled ranAdd] at ran
      cases ran
      exact .replaceKnown cmd loc order mid added entry taken ranAdd

/-! ## Runs -/

/-- An engine some run of commands reaches from the empty one. -/
def Reachable (engine : MatchingEngine) : Prop :=
  ∃ commands outcomes, run MatchingEngine.apply {} commands = .ok (engine, outcomes)

theorem run_wellFormed (commands : List Command) :
    ∃ engine outcomes, run MatchingEngine.apply {} commands = .ok (engine, outcomes) ∧
      WellFormed engine :=
  Runs.run_invariant (fun _ _ => True) WellFormed
    (fun _ command wf _ => apply_wellFormed wf command) wellFormed_empty
    (Runs.meets_of_forall (fun _ _ => trivial) commands)

theorem reachable_wellFormed (reachable : Reachable engine) : WellFormed engine := by
  obtain ⟨commands, outcomes, ran⟩ := reachable
  obtain ⟨final, _, ran', wf⟩ := run_wellFormed commands
  rw [ran] at ran'
  cases ran'
  exact wf

/-- The engine a run of commands ends in. -/
def engineAfter (commands : List Command) : MatchingEngine :=
  match run MatchingEngine.apply {} commands with
  | .ok (engine, _) => engine
  | .error _ => {}

theorem reachable_engineAfter (commands : List Command) : Reachable (engineAfter commands) := by
  obtain ⟨engine, outcomes, ran, -⟩ := run_wellFormed commands
  exact ⟨commands, outcomes, by simp [engineAfter, ran]⟩

/-- What the stored books look like from outside: every level non-empty, every
order with quantity left and in the book, map and key it names, and the
highest bid key below the lowest ask key. -/
structure BooksWellFormed (engine : MatchingEngine) : Prop where
  levels : ∀ symbol book, engine.books.lookup symbol = some book →
    ∀ side price level, (book.side side).find price = some level → level ≠ [] ∧
      ∀ order ∈ level, 0 < order.remaining ∧ order.symbol = symbol ∧ order.side = side ∧
        order.priceTicks = price
  uncrossed : ∀ symbol book, engine.books.lookup symbol = some book →
    ∀ bid bids ask asks, bestLevel .buy book.bids = some (bid, bids) →
      bestLevel .sell book.asks = some (ask, asks) → bid < ask

/-- An order with this price rests on the side. -/
def Quoted (engine : MatchingEngine) (symbol : Bytes) (side : Side) (price : Int64) : Prop :=
  ∃ book level order, engine.books.lookup symbol = some book ∧
    (book.side side).find price = some level ∧ order ∈ level ∧ order.priceTicks = price

theorem booksWellFormed (wf : WellFormed engine) : BooksWellFormed engine := by
  constructor
  · intro symbol book stored side price level found
    have side_ : engine.levels symbol side = book.side side := by
      simp [MatchingEngine.levels, MatchingEngine.bookFor, stored]
    have sideWf := wf.sides symbol side
    rw [side_] at sideWf
    refine ⟨PriceLevels.level_ne_nil sideWf found, fun order member => ?_⟩
    have placed := PriceLevels.placed_of_find sideWf found member
    exact ⟨placed.remaining, placed.symbol, placed.side, placed.price⟩
  · intro symbol book stored bid bids ask asks bestBid bestAsk
    have notCrossed := checkNotCrossed_ok wf symbol
    have book_ : engine.bookFor symbol = book := by simp [MatchingEngine.bookFor, stored]
    rw [book_] at notCrossed
    by_contra crossed
    simp [checkNotCrossed, bestBid, bestAsk, not_lt.mp crossed] at notCrossed

theorem quoted_of_best (wf : WellFormed engine) {symbol : Bytes} {side : Side} {book : Book}
    {price : Int64} {level : Level} (stored : engine.books.lookup symbol = some book)
    (best : bestLevel side (book.side side) = some (price, level)) : Quoted engine symbol side price := by
  rw [PriceLevels.bestLevel_eq_head] at best
  have found : (book.side side).find price = some level :=
    OrderedMap.find_eq_some_iff.mpr (PriceLevels.mem_bestFirst.mp (List.mem_of_head? best))
  obtain ⟨nonempty, placed⟩ := (booksWellFormed wf).levels symbol book stored side price level found
  obtain ⟨order, member⟩ := List.exists_mem_of_ne_nil level nonempty
  exact ⟨book, level, order, stored, found, member, (placed order member).2.2.2⟩

/-- Every run of commands succeeds and ends in well-formed, uncrossed books
whose best prices are prices of resting orders; from there no further command
throws either. -/
theorem every_run_keeps_the_books (commands : List Command) :
    ∃ engine outcomes, run MatchingEngine.apply {} commands = .ok (engine, outcomes) ∧
      BooksWellFormed engine ∧
      (∀ symbol price, engine.bestBid symbol = some price → Quoted engine symbol .buy price) ∧
      (∀ symbol price, engine.bestAsk symbol = some price → Quoted engine symbol .sell price) ∧
      ∀ command, ∃ next outcome, engine.apply command = .ok (next, outcome) := by
  obtain ⟨engine, outcomes, ran, wf⟩ := run_wellFormed commands
  refine ⟨engine, outcomes, ran, booksWellFormed wf, ?_, ?_, ?_⟩
  · intro symbol price best
    obtain ⟨book, stored, found⟩ := Option.bind_eq_some_iff.mp best
    obtain ⟨⟨bid, level⟩, front, rfl⟩ := Option.map_eq_some_iff.mp found
    exact quoted_of_best wf stored front
  · intro symbol price best
    obtain ⟨book, stored, found⟩ := Option.bind_eq_some_iff.mp best
    obtain ⟨⟨ask, level⟩, front, rfl⟩ := Option.map_eq_some_iff.mp found
    exact quoted_of_best wf stored front
  · intro command
    obtain ⟨next, outcome, applied, -⟩ := apply_wellFormed wf command
    exact ⟨next, outcome, applied⟩

end EngineInvariant
end Exchange
