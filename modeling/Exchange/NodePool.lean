import Exchange.EngineInvariant
import Exchange.PoolRefinement

/-! The engine as the user of its pool. An order that comes to rest is a new
`std::list` node, and one that leaves the book has its node freed, so every
level draws single nodes from the pool and returns them. What the pool asks of
its users, that nothing is returned which is not in use, the engine does in
every run, and no node outlives its order. -/
namespace Exchange.NodePool
open EngineSteps EngineInvariant
open ObjectPool (Loan Memory)

/-- What a price level asks of its allocator, about the node at an address. -/
inductive NodeCall where
  | insert (addr : Nat)
  | erase (addr : Nat)
  deriving DecidableEq

/-- `add`: the loop pops the orders that are used up or cancelled, and
`rest_order` inserts one behind them. -/
def addCalls (engine : MatchingEngine) (cmd : AddOrder) : List NodeCall :=
  if engine.refuses cmd then []
  else
    let walk := engine.walkOf cmd
    (walk.steps.filterMap Step.removed).map (fun order => .erase order.addr) ++
      if rests cmd walk.remaining then [.insert engine.nodes] else []

def nodeCalls (engine : MatchingEngine) : Command → List NodeCall
  | .add cmd => addCalls engine cmd
  | .cancel cmd =>
    match engine.index.lookup cmd.orderId with
    | none => []
    | some loc => [.erase loc.iter]
  | .replace cmd =>
    match engine.index.lookup cmd.orderId with
    | none => []
    | some loc =>
      match engine.deref loc, engine.cancel ⟨cmd.symbol, cmd.orderId⟩ with
      | .ok order, .ok (mid, _) =>
        .erase loc.iter :: addCalls mid (MatchingEngine.replacementOrder cmd order.participantId loc.side)
      | _, _ => []

/-- The blocks the nodes lie in, by address. -/
abbrev Held := Memory × List (Nat × Loan)

inductive Fault where
  | engine (fault : Exchange.Fault)
  /-- A node is freed that is not in use. -/
  | notAllocated
  | badAlloc
  deriving DecidableEq

/-- `allocate(1)` for a node, or `deallocate(p, 1)`. -/
def nodeStep (type : Layout) (held : Held) : NodeCall → Except Fault Held
  | .insert addr =>
    match ObjectPool.step held.1 (.allocate type 1 true) with
    | .ok (memory, .handed (some block)) => .ok (memory, (addr, ⟨block, type, 1⟩) :: held.2)
    | _ => .error .badAlloc
  | .erase addr =>
    match held.2.find? fun entry => entry.1 = addr with
    | none => .error .notAllocated
    | some entry =>
      match ObjectPool.step held.1 (.deallocate entry.2) with
      | .ok (memory, _) => .ok (memory, held.2.eraseP fun entry => entry.1 = addr)
      | .error fault => nomatch fault

/-- An engine with its pool. -/
structure Arena where
  engine : MatchingEngine := {}
  memory : Memory := {}
  loans : List (Nat × Loan) := []

def step (type : Layout) (arena : Arena) (command : Command) : Except Fault (Arena × Outcome) :=
  match arena.engine.apply command with
  | .error fault => .error (.engine fault)
  | .ok (engine, outcome) => do
    let (memory, loans) ← (nodeCalls arena.engine command).foldlM (nodeStep type) (arena.memory, arena.loans)
    .ok ({ engine, memory, loans }, outcome)

/-- The resting orders lie in slots of the pool, each in its own, and every slot
is free or has an order in it, and only one of the two. -/
structure InPool (type : Layout) (arena : Arena) : Prop where
  loaned : ∀ order ∈ arena.engine.orders, ∃ loan, (order.addr, loan) ∈ arena.loans
  needed : ∀ entry ∈ arena.loans, ∃ order ∈ arena.engine.orders, order.addr = entry.1
  pooled : ∀ entry ∈ arena.loans, entry.2.type = type ∧ entry.2.block.source = .pool
  nodes : ∀ order ∈ arena.engine.orders, ∀ other ∈ arena.engine.orders,
    order.addr = other.addr → order = other
  once : (arena.loans.map Prod.fst).Nodup
  apart : (arena.loans.map fun entry => entry.2.block).Nodup
  slots : (arena.memory.pool.free ++ arena.loans.map fun entry => entry.2.block).Perm arena.memory.pool.slots
  distinct : arena.memory.pool.slots.Nodup

variable {type : Layout} {held : Held} {nodes : Set Nat} {addr : Nat} {engine mid next : MatchingEngine}
  {cmd : AddOrder}

/-! ## One node -/

/-- These nodes are in use, each in a block of the pool. -/
structure Lodged (type : Layout) (held : Held) (nodes : Set Nat) : Prop where
  kept : ObjectPool.Kept held.1
  once : (held.2.map Prod.fst).Nodup
  nodes : ∀ addr, addr ∈ held.2.map Prod.fst ↔ addr ∈ nodes
  live : (held.2.map Prod.snd).Perm held.1.live
  typed : ∀ entry ∈ held.2, entry.2.type = type ∧ entry.2.n = 1
  /-- The first node sets the size of all blocks. -/
  sized : held.1.pool.block = 0 ∧ held.2 = [] ∨
    held.1.pool.block = PoolResource.blockSize type.bytes type.align ∧ held.1.pool.align = type.align

theorem available_ne_nil (pool : PoolResource) (name : Nat) : ObjectPool.available pool (some name) ≠ [] := by
  rw [ObjectPool.available]
  split
  · simp [PoolResource.chunkSlots, PoolResource.kBlocksPerChunk]
  · rename_i some
    exact some

theorem lodged_insert (lodged : Lodged type held nodes) (fresh : addr ∉ nodes) :
    ∃ after, nodeStep type held (.insert addr) = .ok after ∧ Lodged type after (insert addr nodes) := by
  have settled : (ObjectPool.settled held.1.pool type).block = PoolResource.blockSize type.bytes type.align ∧
      (ObjectPool.settled held.1.pool type).align = type.align := by
    rw [ObjectPool.settled]
    split
    · exact ⟨rfl, rfl⟩
    · rename_i set
      exact lodged.sized.resolve_left fun unset => set unset.1
  have takes : ObjectPool.Takes (ObjectPool.settled held.1.pool type) type 1 :=
    ⟨rfl, by rw [settled.1]; exact type.fits, settled.1.symm, settled.2.symm⟩
  obtain ⟨block, rest, free⟩ := List.exists_cons_of_ne_nil
    (available_ne_nil (ObjectPool.settled held.1.pool type) held.1.calls)
  cases result : PoolAllocator.allocate held.1.pool type 1 (some held.1.calls) with
  | mk pool handed =>
    have asked :
        PoolAllocator.allocate held.1.pool type 1 (if true then some held.1.calls else none) = (pool, handed) :=
      result
    have kept := ObjectPool.kept_requested lodged.kept asked
    have shape : handed = some block ∧ pool.block = (ObjectPool.settled held.1.pool type).block ∧
        pool.align = (ObjectPool.settled held.1.pool type).align := by
      rw [ObjectPool.allocate_taken takes, ObjectPool.pop_eq, free] at result
      cases result
      exact ⟨rfl, rfl, rfl⟩
    obtain ⟨rfl, block_, align_⟩ := shape
    refine ⟨(⟨pool, ⟨block, type, 1⟩ :: held.1.live, held.1.calls + 1⟩,
      (addr, ⟨block, type, 1⟩) :: held.2), ?_, ?_⟩
    · simp only [nodeStep, ObjectPool.step, if_true, result]
      rfl
    · exact {
        kept := kept
        once := List.nodup_cons.mpr ⟨fun member => fresh ((lodged.nodes addr).mp member), lodged.once⟩
        nodes := by
          intro other
          rw [List.map_cons, List.mem_cons, lodged.nodes, Set.mem_insert_iff]
        live := lodged.live.cons _
        typed := List.forall_mem_cons.mpr ⟨⟨rfl, rfl⟩, lodged.typed⟩
        sized := .inr ⟨block_.trans settled.1, align_.trans settled.2⟩ }

theorem deallocate_sizes (pool : PoolResource) (type : Layout) (p : Block) (n : UInt64) :
    (PoolAllocator.deallocate pool type p n).1.block = pool.block ∧
      (PoolAllocator.deallocate pool type p n).1.align = pool.align := by
  rw [PoolAllocator.deallocate]
  split
  · exact ⟨rfl, rfl⟩
  · rw [PoolResource.deallocate]
    split <;> exact ⟨rfl, rfl⟩

theorem lodged_erase (lodged : Lodged type held nodes) (used : addr ∈ nodes) :
    ∃ after, nodeStep type held (.erase addr) = .ok after ∧ Lodged type after (nodes \ {addr}) := by
  obtain ⟨entry, listed, named⟩ := List.mem_map.mp ((lodged.nodes addr).mpr used)
  obtain ⟨first, before, behind, absent, same, split, erased⟩ :=
    List.exists_of_eraseP (p := fun entry : Nat × Loan => entry.1 = addr) listed (decide_eq_true named)
  have found : (held.2.find? fun entry => entry.1 = addr) = some first := by
    rw [split, List.find?_append, List.find?_eq_none.mpr absent, Option.none_or]
    exact List.find?_cons_of_pos same
  have kept := lodged.once
  rw [split, List.map_append, List.map_cons, List.nodup_middle, of_decide_eq_true same, ← List.map_append] at kept
  obtain ⟨gone, once⟩ := List.nodup_cons.mp kept
  have owned : first.2 ∈ held.1.live := by
    rw [← lodged.live.mem_iff, split]
    exact List.mem_map_of_mem (List.mem_append_right _ (List.mem_cons_self ..))
  obtain ⟨memory, ran, keptAfter⟩ := ObjectPool.kept_returned lodged.kept owned
  have shape : memory.live = held.1.live.erase first.2 ∧ memory.pool.block = held.1.pool.block ∧
      memory.pool.align = held.1.pool.align := by
    simp only [ObjectPool.step, Except.ok.injEq, Prod.mk.injEq] at ran
    obtain ⟨rfl, -⟩ := ran
    exact ⟨rfl, deallocate_sizes ..⟩
  refine ⟨(memory, before ++ behind), ?_, ?_⟩
  · rw [nodeStep, found]
    simp only [ran, erased]
  · exact {
      kept := keptAfter
      once := once
      nodes := by
        intro other
        rw [Set.mem_sdiff, Set.mem_singleton_iff, ← lodged.nodes, split]
        simp only [List.map_append, List.map_cons, List.mem_append, List.mem_cons, of_decide_eq_true same] at gone ⊢
        constructor
        · intro member
          refine ⟨by tauto, ?_⟩
          rintro rfl
          exact gone member
        · rintro ⟨member, different⟩
          tauto
      live := by
        have live := lodged.live
        rw [split, List.map_append, List.map_cons] at live
        have rest := (List.perm_middle.symm.trans live).erase first.2
        rw [List.erase_cons_head, ← List.map_append] at rest
        rw [shape.1]
        exact rest
      typed := by
        intro entry member
        refine lodged.typed entry ?_
        rw [split]
        rcases List.mem_append.mp member with early | late
        · exact List.mem_append_left _ early
        · exact List.mem_append_right _ (List.mem_cons_of_mem _ late)
      sized := by
        rw [shape.2.1, shape.2.2]
        refine lodged.sized.imp_left fun unset => ?_
        rw [unset.2] at listed
        exact absurd listed List.not_mem_nil }

theorem lodged_erases (gone : List Nat) (distinct : gone.Nodup) (lodged : Lodged type held nodes)
    (used : ∀ addr ∈ gone, addr ∈ nodes) :
    ∃ after, (gone.map NodeCall.erase).foldlM (nodeStep type) held = .ok after ∧
      Lodged type after (nodes \ {addr | addr ∈ gone}) := by
  induction gone generalizing held nodes with
  | nil => exact ⟨held, rfl, by simpa using lodged⟩
  | cons addr gone ih =>
    obtain ⟨absent, distinct⟩ := List.nodup_cons.mp distinct
    obtain ⟨mid, ran, midLodged⟩ := lodged_erase lodged (used addr (List.mem_cons_self ..))
    obtain ⟨after, ranRest, afterLodged⟩ := ih distinct midLodged fun other member =>
      ⟨used other (List.mem_cons_of_mem _ member), fun same => absent (Set.mem_singleton_iff.mp same ▸ member)⟩
    refine ⟨after, ?_, ?_⟩
    · rw [List.map_cons, List.foldlM_cons, ran]
      exact ranRest
    · have same : nodes \ {other | other ∈ addr :: gone} = (nodes \ {addr}) \ {other | other ∈ gone} := by
        ext other
        simp only [Set.mem_sdiff, Set.mem_ofPred_eq, List.mem_cons, Set.mem_singleton_iff]
        tauto
      rw [same]
      exact afterLodged

/-! ## The nodes of the resting orders -/

/-- The node is in this queue. -/
def LiesAt (engine : MatchingEngine) (symbol : Bytes) (side : Side) (addr : Nat) : Prop :=
  addr ∈ (engine.resting symbol side).map Node.addr

def nodesOf (engine : MatchingEngine) : Set Nat := {addr | ∃ symbol side, LiesAt engine symbol side addr}

/-- No node is in two queues. -/
def Single (engine : MatchingEngine) : Prop :=
  ∀ ⦃symbol side other otherSide addr⦄, LiesAt engine symbol side addr → LiesAt engine other otherSide addr →
    symbol = other ∧ side = otherSide

theorem liesAt_congr (same : ∀ symbol side, next.resting symbol side = engine.resting symbol side) :
    LiesAt next = LiesAt engine := by
  funext symbol side addr
  rw [LiesAt, LiesAt, same]

section
variable {symbol : Bytes} {side : Side} {gone : List Nat}

/-- Some nodes leave one queue. -/
theorem nodesOf_fewer (single : Single engine)
    (elsewhere : ∀ other otherSide, other ≠ symbol ∨ otherSide ≠ side →
      next.resting other otherSide = engine.resting other otherSide)
    (distinct : ((engine.resting symbol side).map Node.addr).Nodup)
    (split : ((engine.resting symbol side).map Node.addr).Perm (gone ++ (next.resting symbol side).map Node.addr)) :
    Single next ∧ (∀ addr ∈ gone, addr ∈ nodesOf engine) ∧
      nodesOf next = nodesOf engine \ {addr | addr ∈ gone} := by
  have here (addr : Nat) : LiesAt engine symbol side addr ↔ addr ∈ gone ∨ LiesAt next symbol side addr := by
    rw [LiesAt, split.mem_iff, List.mem_append, LiesAt]
  have before {other : Bytes} {otherSide : Side} {addr : Nat} (lies : LiesAt next other otherSide addr) :
      LiesAt engine other otherSide addr := by
    by_cases same : other = symbol ∧ otherSide = side
    · obtain ⟨rfl, rfl⟩ := same
      exact (here addr).mpr (.inr lies)
    · rwa [LiesAt, elsewhere other otherSide (not_and_or.mp same)] at lies
  refine ⟨fun _ _ _ _ _ first second => single (before first) (before second), fun addr member =>
    ⟨symbol, side, (here addr).mpr (.inl member)⟩, ?_⟩
  ext addr
  constructor
  · rintro ⟨other, otherSide, lies⟩
    refine ⟨⟨other, otherSide, before lies⟩, fun member => ?_⟩
    -- It would be in this queue twice.
    obtain ⟨rfl, rfl⟩ := single (before lies) ((here addr).mpr (.inl member))
    exact (List.nodup_append.mp (split.nodup_iff.mp distinct)).2.2 addr member addr lies rfl
  · rintro ⟨⟨other, otherSide, lies⟩, stays⟩
    by_cases same : other = symbol ∧ otherSide = side
    · obtain ⟨rfl, rfl⟩ := same
      exact ⟨other, otherSide, ((here addr).mp lies).resolve_left stays⟩
    · exact ⟨other, otherSide, by rwa [LiesAt, elsewhere other otherSide (not_and_or.mp same)]⟩

end

theorem nodesOf_inserted {order : Node} (single : Single engine) (inserted : Inserted engine order next)
    (fresh : order.addr ∉ nodesOf engine) : Single next ∧ nodesOf next = insert order.addr (nodesOf engine) := by
  have lies {symbol : Bytes} {side : Side} {addr : Nat} : LiesAt next symbol side addr ↔
      LiesAt engine symbol side addr ∨ addr = order.addr ∧ symbol = order.symbol ∧ side = order.side := by
    simp only [LiesAt, List.mem_map, mem_inserted inserted]
    constructor
    · rintro ⟨held, old | ⟨rfl, here⟩, rfl⟩
      · exact .inl ⟨held, old, rfl⟩
      · exact .inr ⟨rfl, here⟩
    · rintro (⟨held, old, rfl⟩ | ⟨rfl, here⟩)
      · exact ⟨held, .inl old, rfl⟩
      · exact ⟨order, .inr ⟨rfl, here⟩, rfl⟩
  constructor
  · intro symbol side other otherSide addr first second
    rcases lies.mp first with old | ⟨rfl, rfl, rfl⟩ <;> rcases lies.mp second with old' | ⟨new, rfl, rfl⟩
    · exact single old old'
    · exact absurd ⟨_, _, new ▸ old⟩ fresh
    · exact absurd ⟨_, _, old'⟩ fresh
    · exact ⟨rfl, rfl⟩
  · ext addr
    rw [Set.mem_insert_iff]
    constructor
    · rintro ⟨symbol, side, held⟩
      rcases lies.mp held with old | ⟨rfl, -⟩
      · exact .inr ⟨symbol, side, old⟩
      · exact .inl rfl
    · rintro (rfl | ⟨symbol, side, old⟩)
      · exact ⟨_, _, lies.mpr (.inr ⟨rfl, rfl, rfl⟩)⟩
      · exact ⟨symbol, side, lies.mpr (.inl old)⟩

/-! ## Commands -/

/-- An engine with the blocks of its nodes. -/
structure Stands (type : Layout) (engine : MatchingEngine) (held : Held) : Prop where
  wf : WellFormed engine
  single : Single engine
  lodged : Lodged type held (nodesOf engine)

theorem stands_congr (stands : Stands type engine held) (wf : WellFormed next)
    (same : ∀ symbol side, next.resting symbol side = engine.resting symbol side) : Stands type next held where
  wf := wf
  single := by
    have single := stands.single
    rwa [Single, ← liesAt_congr same] at single
  lodged := by
    have lodged := stands.lodged
    rwa [nodesOf, ← liesAt_congr same] at lodged

theorem stands_rested (stands : Stands type mid held) (cmd : AddOrder) {remaining : Int64} (positive : 0 < remaining)
    (wf : WellFormed (mid.restOrder cmd remaining)) :
    ∃ after, nodeStep type held (.insert mid.nodes) = .ok after ∧
      Stands type (mid.restOrder cmd remaining) after := by
  have fresh : mid.nodes ∉ nodesOf mid := by
    rintro ⟨symbol, side, lies⟩
    obtain ⟨order, member, same⟩ := List.mem_map.mp lies
    exact absurd (stands.wf.allocated symbol side order member) (same ▸ Nat.lt_irrefl _)
  obtain ⟨single, nodes⟩ :=
    nodesOf_inserted stands.single (restOrder_inserted (stands.wf.sides cmd.symbol cmd.side) positive) fresh
  obtain ⟨after, ran, lodged⟩ := lodged_insert stands.lodged fresh
  exact ⟨after, ran, wf, single, by rw [nodes]; exact lodged⟩

theorem stands_matched (stands : Stands type engine held) (matched : Matched engine cmd mid) :
    ∃ after, ((((engine.walkOf cmd).steps.filterMap Step.removed).map Node.addr).map NodeCall.erase).foldlM
        (nodeStep type) held = .ok after ∧ Stands type mid after := by
  have distinct := stands.wf.distinct cmd.symbol (opposite cmd.side)
  have split := walk_addrs cmd cmd.quantity (engine.resting cmd.symbol (opposite cmd.side))
  have rest : (walk cmd cmd.quantity (engine.resting cmd.symbol (opposite cmd.side))).rest =
      mid.resting cmd.symbol (opposite cmd.side) := matched.rest.symm
  rw [rest] at split
  obtain ⟨single, used, nodes⟩ := nodesOf_fewer stands.single
    (fun other side away => resting_of_levels (matched.elsewhere other side away)) distinct (.of_eq split)
  rw [split] at distinct
  obtain ⟨after, ran, lodged⟩ := lodged_erases _ (List.nodup_append.mp distinct).1 stands.lodged used
  exact ⟨after, ran, matched_wellFormed stands.wf matched, single, by rw [nodes]; exact lodged⟩

theorem stands_takenOut {orderId : Int64} {loc : Location} {order : Node} (stands : Stands type engine held)
    (taken : TakenOut engine orderId loc order next) :
    ∃ after, nodeStep type held (.erase loc.iter) = .ok after ∧ Stands type next after := by
  obtain ⟨ahead, behind, before, left⟩ := taken.removed.queue
  have split : ((engine.resting order.symbol order.side).map Node.addr).Perm
      ([order.addr] ++ (next.resting order.symbol order.side).map Node.addr) := by
    rw [before, left, List.map_append, List.map_cons, List.map_append]
    exact List.perm_middle
  obtain ⟨single, used, nodes⟩ := nodesOf_fewer stands.single
    (fun other side away => resting_of_levels (taken.removed.elsewhere other side away))
    (stands.wf.distinct order.symbol order.side) split
  obtain ⟨after, ran, lodged⟩ := lodged_erase stands.lodged (used order.addr (List.mem_singleton_self _))
  rw [← taken.addr]
  refine ⟨after, ran, taken.wellFormed, single, ?_⟩
  rw [nodes]
  simpa using lodged

theorem add_stands (stands : Stands type engine held) (cmd : AddOrder) :
    ∃ next outcome after, engine.add cmd = .ok (next, outcome) ∧
      (addCalls engine cmd).foldlM (nodeStep type) held = .ok after ∧ Stands type next after := by
  by_cases refused : engine.refuses cmd
  · refine ⟨_, _, held, add_refused refused, by rw [addCalls, if_pos refused]; rfl, ?_⟩
    exact stands_congr stands (refused_wellFormed stands.wf cmd) fun symbol side =>
      resting_of_levels (levels_open engine cmd.symbol symbol side)
  · obtain ⟨mid, matched, wf, ran⟩ := add_accepted stands.wf refused
    obtain ⟨between, erased, midStands⟩ := stands_matched stands matched
    have calls : addCalls engine cmd =
        (((engine.walkOf cmd).steps.filterMap Step.removed).map Node.addr).map NodeCall.erase ++
          if rests cmd (engine.walkOf cmd).remaining then [.insert mid.nodes] else [] := by
      rw [addCalls, if_neg refused, List.map_map, matched.nodes]
      rfl
    by_cases resting : rests cmd (engine.walkOf cmd).remaining
    · have same : ∀ symbol side, (settled mid cmd (engine.walkOf cmd).remaining).resting symbol side =
          (mid.restOrder cmd (engine.walkOf cmd).remaining).resting symbol side := fun symbol side =>
        resting_congr (by rw [settled, if_pos resting]) symbol side
      have restedWf : WellFormed (mid.restOrder cmd (engine.walkOf cmd).remaining) :=
        inserted_wellFormed midStands.wf (restOrder_inserted (midStands.wf.sides _ _) resting.1) rfl rfl rfl
          (rest_is_apart stands.wf matched resting)
      obtain ⟨after, inserted, afterStands⟩ := stands_rested midStands cmd resting.1 restedWf
      refine ⟨_, _, after, ran, ?_, stands_congr afterStands wf same⟩
      rw [calls, if_pos resting, List.foldlM_append, erased]
      simp only [bind, Except.bind, List.foldlM_cons, inserted, List.foldlM_nil]
      rfl
    · have same : ∀ symbol side, (settled mid cmd (engine.walkOf cmd).remaining).resting symbol side =
          mid.resting symbol side := fun symbol side =>
        resting_congr (by rw [settled, if_neg resting]) symbol side
      refine ⟨_, _, between, ran, ?_, stands_congr midStands wf same⟩
      rw [calls, if_neg resting, List.append_nil]
      exact erased

/-- What a command does to the book it does with the nodes, and the pool goes along. -/
theorem apply_stands (stands : Stands type engine held) (command : Command) :
    ∃ next outcome after, engine.apply command = .ok (next, outcome) ∧
      (nodeCalls engine command).foldlM (nodeStep type) held = .ok after ∧ Stands type next after := by
  cases command with
  | add cmd => exact add_stands stands cmd
  | cancel cmd =>
    cases entry : engine.index.lookup cmd.orderId with
    | none =>
      refine ⟨_, _, held, apply_cancel (cancel_unknown entry), by simp only [nodeCalls, entry]; rfl, ?_⟩
      exact stands_congr stands (wellFormed_congr stands.wf (fun _ _ => rfl) rfl rfl) fun _ _ => rfl
    | some loc =>
      obtain ⟨order, next, taken, ran⟩ := cancel_known stands.wf cmd entry
      obtain ⟨after, erased, afterStands⟩ := stands_takenOut stands taken
      refine ⟨next, _, after, apply_cancel ran, ?_, afterStands⟩
      simp only [nodeCalls, entry, List.foldlM_cons, erased, List.foldlM_nil]
      rfl
  | replace cmd =>
    cases entry : engine.index.lookup cmd.orderId with
    | none =>
      refine ⟨_, _, held, replace_unknown entry, by simp only [nodeCalls, entry]; rfl, ?_⟩
      exact stands_congr stands (wellFormed_congr stands.wf (fun _ _ => rfl) rfl rfl) fun _ _ => rfl
    | some loc =>
      obtain ⟨order, mid, taken, cancelled⟩ := cancel_known stands.wf ⟨cmd.symbol, cmd.orderId⟩ entry
      obtain ⟨between, erased, midStands⟩ := stands_takenOut stands taken
      obtain ⟨next, outcome, after, added, more, afterStands⟩ :=
        add_stands midStands (MatchingEngine.replacementOrder cmd order.participantId loc.side)
      refine ⟨next, _, after, replace_known entry taken.reached cancelled added, ?_, afterStands⟩
      simp only [nodeCalls, entry, taken.reached, cancelled, List.foldlM_cons, erased, bind, Except.bind]
      exact more

/-- The step of the engine with its pool is the step of the engine. -/
theorem step_stands {arena : Arena} (stands : Stands type arena.engine (arena.memory, arena.loans))
    (command : Command) :
    ∃ next outcome, step type arena command = .ok (next, outcome) ∧
      arena.engine.apply command = .ok (next.engine, outcome) ∧
      Stands type next.engine (next.memory, next.loans) := by
  obtain ⟨next, outcome, after, ran, called, afterStands⟩ := apply_stands stands command
  refine ⟨⟨next, after.1, after.2⟩, outcome, ?_, ran, afterStands⟩
  simp only [step, ran, called, bind, Except.bind]

theorem run_stands {arena : Arena} (stands : Stands type arena.engine (arena.memory, arena.loans))
    (commands : List Command) :
    ∃ last outcomes, run (step type) arena commands = .ok (last, outcomes) ∧
      run MatchingEngine.apply arena.engine commands = .ok (last.engine, outcomes) ∧
      Stands type last.engine (last.memory, last.loans) := by
  induction commands generalizing arena with
  | nil => exact ⟨arena, [], rfl, rfl, stands⟩
  | cons command commands ih =>
    obtain ⟨next, outcome, ran, applied, nextStands⟩ := step_stands stands command
    obtain ⟨last, outcomes, ranRest, appliedRest, lastStands⟩ := ih nextStands
    refine ⟨last, outcome :: outcomes, ?_, ?_, lastStands⟩
    · rw [Runs.run_cons ran, ranRest]
      rfl
    · rw [Runs.run_cons applied, appliedRest]
      rfl

theorem stands_empty (type : Layout) : Stands type {} ({}, []) where
  wf := wellFormed_empty
  single := by
    intro symbol side other otherSide addr lies
    cases side <;> exact absurd lies List.not_mem_nil
  lodged := {
    kept := ObjectPool.kept_empty
    once := .nil
    nodes := by
      intro addr
      refine ⟨fun member => absurd member List.not_mem_nil, ?_⟩
      rintro ⟨symbol, side, lies⟩
      cases side <;> exact absurd lies List.not_mem_nil
    live := .nil
    typed := fun entry member => absurd member List.not_mem_nil
    sized := .inl ⟨rfl, rfl⟩ }

/-! ## The pool of a run -/

/-- Every node is in a chunk: nothing the engine asks for is refused by the pool. -/
theorem lodged_pooled (lodged : Lodged type held nodes) {entry : Nat × Loan} (member : entry ∈ held.2) :
    entry.2.block.source = .pool := by
  have live : entry.2 ∈ held.1.live := lodged.live.subset (List.mem_map_of_mem member)
  obtain ⟨block, align⟩ := lodged.sized.resolve_left fun unset => absurd member (unset.2 ▸ List.not_mem_nil)
  obtain ⟨typed, single⟩ := lodged.typed entry member
  refine (lodged.kept.source entry.2 live).mpr ⟨single, ?_, ?_, ?_⟩
  · rw [block]
    exact type.fits
  · rw [typed, block]
  · rw [typed, align]

theorem lodged_slots (lodged : Lodged type held nodes) :
    (held.1.pool.free ++ held.2.map fun entry => entry.2.block).Perm held.1.pool.slots := by
  have blocks : (held.2.map fun entry => entry.2.block).Perm (held.1.live.map Loan.block) := by
    have mapped := lodged.live.map Loan.block
    rwa [List.map_map] at mapped
  have all : ObjectPool.blocksFrom .pool held.1.live = held.1.live.map Loan.block := by
    refine List.filter_eq_self.mpr fun block member => decide_eq_true ?_
    obtain ⟨entry, listed, rfl⟩ := List.mem_map.mp (blocks.mem_iff.mpr member)
    exact lodged_pooled lodged listed
  have slots := lodged.kept.slots
  rw [all] at slots
  exact (blocks.append_left _).trans slots

theorem inPool_of_stands {arena : Arena} (stands : Stands type arena.engine (arena.memory, arena.loans)) :
    InPool type arena where
  loaned := by
    intro order member
    obtain ⟨symbol, side, rests⟩ := mem_orders.mp member
    have listed := (stands.lodged.nodes order.addr).mpr ⟨symbol, side, List.mem_map_of_mem rests⟩
    obtain ⟨entry, inUse, named⟩ := List.mem_map.mp listed
    exact ⟨entry.2, named ▸ inUse⟩
  needed := by
    intro entry member
    obtain ⟨symbol, side, lies⟩ := (stands.lodged.nodes entry.1).mp (List.mem_map_of_mem member)
    obtain ⟨order, rests, named⟩ := List.mem_map.mp lies
    exact ⟨order, mem_orders.mpr ⟨symbol, side, rests⟩, named⟩
  pooled := fun entry member => ⟨(stands.lodged.typed entry member).1, lodged_pooled stands.lodged member⟩
  nodes := by
    intro order member other otherMember same
    obtain ⟨symbol, side, rests⟩ := mem_orders.mp member
    obtain ⟨symbol', side', rests'⟩ := mem_orders.mp otherMember
    have lies : LiesAt arena.engine symbol side order.addr := List.mem_map_of_mem rests
    have lies' : LiesAt arena.engine symbol' side' order.addr := by
      rw [same]
      exact List.mem_map_of_mem rests'
    obtain ⟨rfl, rfl⟩ := stands.single lies lies'
    exact List.inj_on_of_nodup_map (stands.wf.distinct symbol side) rests rests' same
  once := stands.lodged.once
  apart := by
    have distinct := ObjectPool.slots_nodup stands.lodged.kept.chunks
    exact (List.nodup_append.mp ((lodged_slots stands.lodged).nodup_iff.mpr distinct)).2.1
  slots := lodged_slots stands.lodged
  distinct := ObjectPool.slots_nodup stands.lodged.kept.chunks

/-- In every run each resting order lies in a slot of the pool of its own, what
leaves the books is returned, and every slot is free or has an order in it. The
pool is asked for nothing that it refuses, and changes no answer. -/
theorem orders_lie_in_the_pool (type : Layout) (commands : List Command) :
    ∃ arena outcomes, run (step type) {} commands = .ok (arena, outcomes) ∧
      run MatchingEngine.apply {} commands = .ok (arena.engine, outcomes) ∧ InPool type arena := by
  have start : Stands type ({} : Arena).engine (({} : Arena).memory, ({} : Arena).loans) := stands_empty type
  obtain ⟨arena, outcomes, ran, applied, stands⟩ := run_stands start commands
  exact ⟨arena, outcomes, ran, applied, inPool_of_stands stands⟩

end Exchange.NodePool
