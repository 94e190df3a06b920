import Exchange.EngineInvariant

/-! Two engines that show the same orders. An order's address and its entry
number are bookkeeping: no command looks at them except to follow the index.
`Twins` relates engines that differ only there, repeated ids included, and
every command takes twins to twins with the same events and trades. Recovery
builds a twin of the lost engine, not the engine itself. -/
namespace Exchange
open EngineSteps EngineInvariant

/-- What an order shows: everything but its address and its entry number. -/
structure OrderView where
  symbol : Bytes
  orderId : Int64
  participantId : Bytes
  side : Side
  priceTicks : Int64
  remaining : Int64
  deriving DecidableEq

def Node.view (order : Node) : OrderView where
  symbol := order.symbol
  orderId := order.orderId
  participantId := order.participantId
  side := order.side
  priceTicks := order.priceTicks
  remaining := order.remaining

namespace Twins

abbrev Pair := Node × Node

/-- The two orders of each pair show the same. -/
def Alike (pairs : List Pair) : Prop := ∀ pair ∈ pairs, pair.1.view = pair.2.view

/-- Index entries that lead to the two orders of one pair. -/
def SameEntry (pairs : Bytes → Side → List Pair) (first second : Location) : Prop :=
  first.symbol = second.symbol ∧ first.side = second.side ∧ first.price = second.price ∧
    ∀ pair ∈ pairs first.symbol first.side, pair.1.addr = first.iter ↔ pair.2.addr = second.iter

/-- The queues of two engines, order by order. -/
def pairsOf (first second : MatchingEngine) (symbol : Bytes) (side : Side) : List Pair :=
  (first.resting symbol side).zip (second.resting symbol side)

end Twins

/-- Engines with the same books up to addresses and entry numbers, whose
indexes lead to the same places. -/
structure Twins (first second : MatchingEngine) : Prop where
  listed : ∀ symbol, symbol ∈ first.books ↔ symbol ∈ second.books
  queues : ∀ symbol side, (first.resting symbol side).map Node.view =
    (second.resting symbol side).map Node.view
  index : ∀ orderId, Option.Rel (Twins.SameEntry (Twins.pairsOf first second))
    (first.index.lookup orderId) (second.index.lookup orderId)

namespace Twins
variable {first second mid mid' next next' : MatchingEngine} {cmd : AddOrder} {symbol : Bytes} {side : Side}

theorem view_fields {order other : Node} (same : order.view = other.view) :
    order.symbol = other.symbol ∧ order.orderId = other.orderId ∧
      order.participantId = other.participantId ∧ order.side = other.side ∧
      order.priceTicks = other.priceTicks ∧ order.remaining = other.remaining := by
  simpa [Node.view] using same

/-- Queues that show the same are the two sides of one list of pairs. -/
theorem pairs_of_views {queue queue' : List Node} (same : queue.map Node.view = queue'.map Node.view) :
    (queue.zip queue').map Prod.fst = queue ∧ (queue.zip queue').map Prod.snd = queue' ∧
      Alike (queue.zip queue') := by
  have size : queue.length = queue'.length := by
    simpa using congrArg List.length same
  refine ⟨List.map_fst_zip size.le, List.map_snd_zip size.ge, ?_⟩
  intro pair member
  induction queue generalizing queue' with
  | nil => simp at member
  | cons order rest ih =>
    cases queue' with
    | nil => simp at member
    | cons other rest' =>
      simp only [List.map_cons, List.cons.injEq] at same
      rcases List.mem_cons.mp member with rfl | later
      · exact same.1
      · exact ih same.2 (by simpa using size) later

theorem views_of_pairs {pairs : List Pair} (alike : Alike pairs) :
    (pairs.map Prod.fst).map Node.view = (pairs.map Prod.snd).map Node.view := by
  rw [List.map_map, List.map_map]
  exact List.map_congr_left alike

/-- A pair made of two lists of the same length is made of their pairs. -/
theorem zip_of_pairs (pairs : List Pair) : (pairs.map Prod.fst).zip (pairs.map Prod.snd) = pairs := by
  induction pairs with
  | nil => rfl
  | cons pair pairs ih => simp [ih]

/-! ## The walk over pairs -/

/-- The same step at the two orders of a pair. -/
def SameStep (cmd : AddOrder) (first second : Step) : Prop :=
  first.report cmd = second.report cmd ∧ first.trade cmd = second.trade cmd ∧
    first.removed.map (fun order => order.orderId) = second.removed.map (fun order => order.orderId)

theorem sameStep_fill {order other : Node} (same : order.view = other.view) (qty : Int64) :
    SameStep cmd (.fill order qty) (.fill other qty) := by
  obtain ⟨-, named, owner, -, price, left⟩ := view_fields same
  refine ⟨by simp [Step.report, named, price], by simp [Step.trade, tradeOf, named, owner, price], ?_⟩
  simp only [Step.removed, left]
  split <;> simp [named]

theorem sameStep_cancelPassive {order other : Node} (same : order.view = other.view) :
    SameStep cmd (.cancelPassive order) (.cancelPassive other) := by
  obtain ⟨-, named, -, -, -, left⟩ := view_fields same
  exact ⟨by simp [Step.report, named, left], rfl, by simp [Step.removed, named]⟩

/-- Walks over queues that show the same take the same steps and leave queues
that show the same, at the addresses they had. -/
theorem walk_pairs (cmd : AddOrder) (remaining : Int64) (pairs : List Pair) (alike : Alike pairs) :
    (walk cmd remaining (pairs.map Prod.fst)).remaining = (walk cmd remaining (pairs.map Prod.snd)).remaining ∧
    List.Forall₂ (SameStep cmd) (walk cmd remaining (pairs.map Prod.fst)).steps
      (walk cmd remaining (pairs.map Prod.snd)).steps ∧
    ∃ left : List Pair, (walk cmd remaining (pairs.map Prod.fst)).rest = left.map Prod.fst ∧
      (walk cmd remaining (pairs.map Prod.snd)).rest = left.map Prod.snd ∧ Alike left ∧
      ∀ pair ∈ left, ∃ origin ∈ pairs, origin.1.addr = pair.1.addr ∧ origin.2.addr = pair.2.addr := by
  induction pairs generalizing remaining with
  | nil => exact ⟨rfl, by simp [walk], [], rfl, rfl, alike, by simp⟩
  | cons pair pairs ih =>
    have later : Alike pairs := fun other member => alike other (List.mem_cons_of_mem _ member)
    have same := alike pair (by simp)
    obtain ⟨-, -, owner, -, price, left⟩ := view_fields same
    have untouched : ∃ left : List Pair, (pair :: pairs).map Prod.fst = left.map Prod.fst ∧
        (pair :: pairs).map Prod.snd = left.map Prod.snd ∧ Alike left ∧
        ∀ pair' ∈ left, ∃ origin ∈ pair :: pairs, origin.1.addr = pair'.1.addr ∧
          origin.2.addr = pair'.2.addr :=
      ⟨pair :: pairs, rfl, rfl, alike, fun pair' member => ⟨pair', member, rfl, rfl⟩⟩
    have behind : ∃ left : List Pair, pairs.map Prod.fst = left.map Prod.fst ∧
        pairs.map Prod.snd = left.map Prod.snd ∧ Alike left ∧
        ∀ pair' ∈ left, ∃ origin ∈ pair :: pairs, origin.1.addr = pair'.1.addr ∧
          origin.2.addr = pair'.2.addr :=
      ⟨pairs, rfl, rfl, later, fun pair' member => ⟨pair', List.mem_cons_of_mem _ member, rfl, rfl⟩⟩
    have onward : ∀ remaining step step', SameStep cmd step step' →
        ((walk cmd remaining (pairs.map Prod.fst)).after step).remaining =
          ((walk cmd remaining (pairs.map Prod.snd)).after step').remaining ∧
        List.Forall₂ (SameStep cmd) ((walk cmd remaining (pairs.map Prod.fst)).after step).steps
          ((walk cmd remaining (pairs.map Prod.snd)).after step').steps ∧
        ∃ left : List Pair, ((walk cmd remaining (pairs.map Prod.fst)).after step).rest = left.map Prod.fst ∧
          ((walk cmd remaining (pairs.map Prod.snd)).after step').rest = left.map Prod.snd ∧ Alike left ∧
          ∀ pair' ∈ left, ∃ origin ∈ pair :: pairs, origin.1.addr = pair'.1.addr ∧
            origin.2.addr = pair'.2.addr := by
      intro remaining step step' sameStep
      obtain ⟨quantity, steps, left, firstLeft, secondLeft, leftAlike, origins⟩ := ih remaining later
      refine ⟨quantity, List.Forall₂.cons sameStep steps, left, firstLeft, secondLeft, leftAlike, ?_⟩
      intro pair' member
      obtain ⟨origin, held, addrs⟩ := origins pair' member
      exact ⟨origin, List.mem_cons_of_mem _ held, addrs⟩
    simp only [List.map_cons, walk, ← price, ← owner, ← left]
    split
    · exact ⟨rfl, List.Forall₂.nil, untouched⟩
    · split
      · split
        · exact ⟨rfl, List.Forall₂.cons (sameStep_cancelPassive same)
            (List.Forall₂.cons ⟨rfl, rfl, rfl⟩ List.Forall₂.nil), behind⟩
        · exact ⟨rfl, List.Forall₂.cons ⟨rfl, rfl, rfl⟩ List.Forall₂.nil, untouched⟩
        · exact onward remaining _ _ (sameStep_cancelPassive same)
      · split
        · refine ⟨rfl, List.Forall₂.cons (sameStep_fill same remaining) List.Forall₂.nil,
            ({ pair.1 with remaining := pair.1.remaining - remaining },
              { pair.2 with remaining := pair.1.remaining - remaining }) :: pairs, rfl,
            by simp only [List.map_cons, price, owner], ?_, ?_⟩
          · intro pair' member
            rcases List.mem_cons.mp member with rfl | other
            · simpa [Node.view] using And.intro (view_fields same).1 ⟨(view_fields same).2.1, owner,
                (view_fields same).2.2.2.1, price⟩
            · exact later pair' other
          · intro pair' member
            rcases List.mem_cons.mp member with rfl | other
            · exact ⟨pair, by simp, rfl, rfl⟩
            · exact ⟨pair', List.mem_cons_of_mem _ other, rfl, rfl⟩
        · exact onward (remaining - pair.1.remaining) _ _ (sameStep_fill same pair.1.remaining)

/-! ## Twins through one operation -/

theorem pairs (twins : Twins first second) (symbol : Bytes) (side : Side) :
    (pairsOf first second symbol side).map Prod.fst = first.resting symbol side ∧
      (pairsOf first second symbol side).map Prod.snd = second.resting symbol side ∧
      Alike (pairsOf first second symbol side) :=
  pairs_of_views (twins.queues symbol side)

theorem removedIds_eq {steps steps' : List Step} (same : List.Forall₂ (SameStep cmd) steps steps') :
    (steps.filterMap Step.removed).map (fun order => order.orderId) =
      (steps'.filterMap Step.removed).map (fun order => order.orderId) := by
  induction same with
  | nil => rfl
  | @cons step step' steps steps' head _ ih =>
    have ids := head.2.2
    cases one : step.removed with
    | none =>
      rw [one, Option.map_none, eq_comm, Option.map_eq_none_iff] at ids
      simp [one, ids, ih]
    | some order =>
      rw [one, Option.map_some, eq_comm, Option.map_eq_some_iff] at ids
      obtain ⟨order', other, named⟩ := ids
      simp [one, other, named, ih]

theorem reports_eq {steps steps' : List Step} (same : List.Forall₂ (SameStep cmd) steps steps') :
    steps.map (Step.report cmd) = steps'.map (Step.report cmd) := by
  induction same with
  | nil => rfl
  | cons head _ ih => rw [List.map_cons, List.map_cons, head.1, ih]

theorem trades_eq {steps steps' : List Step} (same : List.Forall₂ (SameStep cmd) steps steps') :
    steps.filterMap (Step.trade cmd) = steps'.filterMap (Step.trade cmd) := by
  induction same with
  | nil => rfl
  | cons head _ ih => rw [List.filterMap_cons, List.filterMap_cons, head.2.1, ih]

theorem forgetAll_lookup_eq (index : AList (fun _ : Int64 => Location)) (steps : List Step)
    (orderId : Int64) :
    (forgetAll index steps).lookup orderId =
      if orderId ∈ (steps.filterMap Step.removed).map (fun order => order.orderId) then none
      else index.lookup orderId := by
  apply Option.ext
  intro loc
  rw [forgetAll_lookup]
  split
  · rename_i gone
    obtain ⟨order, member, named⟩ := List.mem_map.mp gone
    simp only [reduceCtorEq, iff_false, not_and]
    intro _ absent
    exact absent order member named
  · rename_i kept
    constructor
    · exact fun held => held.1
    · intro found
      refine ⟨found, fun order member named => kept (List.mem_map.mpr ⟨order, member, named⟩)⟩

/-- Both engines changed one queue, which now holds these pairs. -/
structure OneQueue (first second next next' : MatchingEngine) (symbol : Bytes) (side : Side)
    (pairs : List Pair) : Prop where
  firsts : next.resting symbol side = pairs.map Prod.fst
  seconds : next'.resting symbol side = pairs.map Prod.snd
  alike : Alike pairs
  elsewhere : ∀ symbol' side', ¬ (symbol' = symbol ∧ side' = side) →
    next.resting symbol' side' = first.resting symbol' side' ∧
      next'.resting symbol' side' = second.resting symbol' side'

theorem queues_of_oneQueue {left : List Pair} (twins : Twins first second)
    (changed : OneQueue first second next next' symbol side left) (symbol' : Bytes) (side' : Side) :
    (next.resting symbol' side').map Node.view = (next'.resting symbol' side').map Node.view := by
  by_cases here : symbol' = symbol ∧ side' = side
  · obtain ⟨rfl, rfl⟩ := here
    rw [changed.firsts, changed.seconds]
    exact views_of_pairs changed.alike
  · rw [(changed.elsewhere symbol' side' here).1, (changed.elsewhere symbol' side' here).2]
    exact twins.queues symbol' side'

/-- Related entries stay related when the pairs of the changed queue have their
old addresses, or addresses that the entries do not lead to. -/
theorem entry_of_oneQueue {left : List Pair} (changed : OneQueue first second next next' symbol side left)
    {entry entry' : Option Location} (related : Option.Rel (SameEntry (pairsOf first second)) entry entry')
    (leads : ∀ loc ∈ entry, ∀ loc' ∈ entry', ∀ pair ∈ left,
      (∃ origin ∈ pairsOf first second symbol side,
        origin.1.addr = pair.1.addr ∧ origin.2.addr = pair.2.addr) ∨
      (pair.1.addr ≠ loc.iter ∧ pair.2.addr ≠ loc'.iter)) :
    Option.Rel (SameEntry (pairsOf next next')) entry entry' := by
  cases related with
  | none => exact Option.Rel.none
  | @some loc loc' same =>
    obtain ⟨sameSymbol, sameSide, samePrice, lead⟩ := same
    refine Option.Rel.some ⟨sameSymbol, sameSide, samePrice, fun pair member => ?_⟩
    by_cases here : loc.symbol = symbol ∧ loc.side = side
    · rw [pairsOf, here.1, here.2, changed.firsts, changed.seconds, zip_of_pairs] at member
      rcases leads loc rfl loc' rfl pair member with ⟨origin, held, firstAddr, secondAddr⟩ | ⟨away, away'⟩
      · rw [← firstAddr, ← secondAddr]
        exact lead origin (by rw [here.1, here.2]; exact held)
      · exact iff_of_false away away'
    · rw [pairsOf, (changed.elsewhere _ _ here).1, (changed.elsewhere _ _ here).2] at member
      exact lead pair member

/-- Both engines have the changed book, and the others as before. -/
theorem listed_of_opened (twins : Twins first second) (opened : symbol ∈ next.books)
    (opened' : symbol ∈ next'.books)
    (books : ∀ symbol', symbol' ≠ symbol → next.books.lookup symbol' = first.books.lookup symbol')
    (books' : ∀ symbol', symbol' ≠ symbol → next'.books.lookup symbol' = second.books.lookup symbol')
    (symbol' : Bytes) : symbol' ∈ next.books ↔ symbol' ∈ next'.books := by
  by_cases here : symbol' = symbol
  · subst here
    exact ⟨fun _ => opened', fun _ => opened⟩
  · rw [← AList.lookup_isSome, ← AList.lookup_isSome, books symbol' here, books' symbol' here,
      AList.lookup_isSome, AList.lookup_isSome]
    exact twins.listed symbol'

/-- Walks of twins leave twins. -/
theorem matched (twins : Twins first second) (one : Matched first cmd mid) (other : Matched second cmd mid') :
    Twins mid mid' ∧ (first.walkOf cmd).remaining = (second.walkOf cmd).remaining ∧
      List.Forall₂ (SameStep cmd) (first.walkOf cmd).steps (second.walkOf cmd).steps := by
  obtain ⟨firsts, seconds, alike⟩ := twins.pairs cmd.symbol (opposite cmd.side)
  obtain ⟨remaining, steps, left, firstLeft, secondLeft, leftAlike, origins⟩ :=
    walk_pairs cmd cmd.quantity _ alike
  rw [firsts, seconds] at remaining steps
  change List.Forall₂ (SameStep cmd) (first.walkOf cmd).steps (second.walkOf cmd).steps at steps
  rw [firsts] at firstLeft
  rw [seconds] at secondLeft
  have changed : OneQueue first second mid mid' cmd.symbol (opposite cmd.side) left := by
    refine ⟨one.rest.trans firstLeft, other.rest.trans secondLeft, leftAlike, fun symbol side away => ?_⟩
    exact ⟨resting_of_levels (one.elsewhere symbol side (by tauto)),
      resting_of_levels (other.elsewhere symbol side (by tauto))⟩
  refine ⟨⟨listed_of_opened twins one.opened other.opened one.books other.books,
    queues_of_oneQueue twins changed, fun orderId => ?_⟩, remaining, steps⟩
  rw [one.index, other.index, forgetAll_lookup_eq, forgetAll_lookup_eq, removedIds_eq steps]
  split
  · exact Option.Rel.none
  · exact entry_of_oneQueue changed (twins.index orderId) fun _ _ _ _ pair member => .inl (origins pair member)

/-- What an insertion leaves ahead of the new order is the front of the queue
that is not beyond its price. -/
theorem ahead_of_inserted (side : Side) (price : Int64) {queue ahead behind : List Node}
    (shape : queue = ahead ++ behind)
    (front : ∀ order ∈ ahead, beyond side price order.priceTicks = false)
    (back : ∀ order ∈ behind, beyond side price order.priceTicks = true) :
    ahead = queue.takeWhile (fun order => !beyond side price order.priceTicks) ∧
      behind = queue.dropWhile (fun order => !beyond side price order.priceTicks) := by
  have kept : ∀ order ∈ ahead, (!beyond side price order.priceTicks) = true := by
    intro order member
    simp [front order member]
  rw [shape, List.takeWhile_append_of_pos kept, List.dropWhile_append_of_pos kept]
  cases behind with
  | nil => simp
  | cons order rest => simp [back order (by simp)]

/-- Orders that show the same go to the same place of twins' queues. -/
theorem oneQueue_of_inserted {order order' : Node} (twins : Twins first second)
    (same : order.view = order'.view) (one : Inserted first order next)
    (other : Inserted second order' next') :
    ∃ pairs, OneQueue first second next next' order.symbol order.side pairs ∧
      ∀ pair ∈ pairs, pair ∈ pairsOf first second order.symbol order.side ∨ pair = (order, order') := by
  obtain ⟨sameSymbol, -, -, sameSide, samePrice, -⟩ := view_fields same
  obtain ⟨firsts, seconds, alike⟩ := twins.pairs order.symbol order.side
  obtain ⟨ahead, behind, before, after, front, back⟩ := one.queue
  obtain ⟨ahead', behind', before', after', front', back'⟩ := other.queue
  rw [← sameSymbol, ← sameSide] at before' after'
  rw [← sameSide, ← samePrice] at front' back'
  -- The pairs split where the first queue does, and the second queue splits there too.
  obtain ⟨pairsAhead, pairsBehind, split, rfl, rfl⟩ := List.map_eq_append_iff.mp (firsts.trans before)
  rw [split] at seconds alike
  rw [List.map_append] at seconds
  have aheadAlike : Alike pairsAhead := fun pair member => alike pair (List.mem_append_left _ member)
  have behindAlike : Alike pairsBehind := fun pair member => alike pair (List.mem_append_right _ member)
  have there : ahead' = pairsAhead.map Prod.snd ∧ behind' = pairsBehind.map Prod.snd := by
    obtain ⟨frontIs, backIs⟩ := ahead_of_inserted order.side order.priceTicks before' front' back'
    obtain ⟨frontIs', backIs'⟩ := ahead_of_inserted order.side order.priceTicks seconds.symm
      (by
        rintro held member
        obtain ⟨pair, inside, rfl⟩ := List.mem_map.mp member
        rw [← (view_fields (aheadAlike pair inside)).2.2.2.2.1]
        exact front pair.1 (List.mem_map_of_mem inside))
      (by
        rintro held member
        obtain ⟨pair, inside, rfl⟩ := List.mem_map.mp member
        rw [← (view_fields (behindAlike pair inside)).2.2.2.2.1]
        exact back pair.1 (List.mem_map_of_mem inside))
    exact ⟨frontIs.trans frontIs'.symm, backIs.trans backIs'.symm⟩
  obtain ⟨rfl, rfl⟩ := there
  refine ⟨pairsAhead ++ (order, order') :: pairsBehind, ?_, ?_⟩
  · refine ⟨by rw [after]; simp, by rw [after']; simp, ?_, fun symbol side away => ?_⟩
    · intro pair member
      rcases List.mem_append.mp member with inAhead | later
      · exact aheadAlike pair inAhead
      · rcases List.mem_cons.mp later with rfl | inBehind
        · exact same
        · exact behindAlike pair inBehind
    · exact ⟨resting_of_levels (one.elsewhere symbol side (by tauto)),
        resting_of_levels (other.elsewhere symbol side (by rw [← sameSymbol, ← sameSide]; tauto))⟩
  · intro pair member
    rw [split, List.mem_append]
    rw [List.mem_append, List.mem_cons] at member
    tauto

/-- Orders that show the same, put into twins under fresh addresses. -/
theorem inserted {order order' : Node} (twins : Twins first second) (wf : WellFormed first)
    (wf' : WellFormed second) (same : order.view = order'.view)
    (one : Inserted first order next) (other : Inserted second order' next')
    (fresh : order.addr = first.nodes) (fresh' : order'.addr = second.nodes)
    (index : next.index = first.index.insert order.orderId
      ⟨order.symbol, order.side, order.priceTicks, order.addr⟩)
    (index' : next'.index = second.index.insert order'.orderId
      ⟨order'.symbol, order'.side, order'.priceTicks, order'.addr⟩)
    (listed : ∀ symbol, symbol ∈ next.books ↔ symbol = order.symbol ∨ symbol ∈ first.books)
    (listed' : ∀ symbol, symbol ∈ next'.books ↔ symbol = order'.symbol ∨ symbol ∈ second.books) :
    Twins next next' := by
  obtain ⟨sameSymbol, sameId, -, sameSide, samePrice, -⟩ := view_fields same
  obtain ⟨pairs, changed, origins⟩ := oneQueue_of_inserted twins same one other
  refine ⟨fun symbol => ?_, queues_of_oneQueue twins changed, fun orderId => ?_⟩
  · rw [listed, listed', sameSymbol, twins.listed]
  rw [index, index', ← sameId]
  by_cases mine : orderId = order.orderId
  · subst mine
    rw [AList.lookup_insert, AList.lookup_insert]
    refine Option.Rel.some ⟨sameSymbol, sameSide, samePrice, fun pair member => ?_⟩
    rw [pairsOf, changed.firsts, changed.seconds, zip_of_pairs] at member
    rcases origins pair member with old | rfl
    · have bound := wf.allocated _ _ _ (List.of_mem_zip old).1
      have bound' := wf'.allocated _ _ _ (List.of_mem_zip old).2
      rw [← fresh] at bound
      rw [← fresh'] at bound'
      exact iff_of_false bound.ne bound'.ne
    · exact ⟨fun _ => rfl, fun _ => rfl⟩
  · rw [AList.lookup_insert_ne mine, AList.lookup_insert_ne mine]
    refine entry_of_oneQueue changed (twins.index orderId) fun loc found loc' found' pair member => ?_
    rcases origins pair member with old | rfl
    · exact .inl ⟨pair, old, rfl, rfl⟩
    · -- Entries of other ids lead to older nodes.
      obtain ⟨held, inside, addr, -⟩ := wf.located orderId loc found
      obtain ⟨held', inside', addr', -⟩ := wf'.located orderId loc' found'
      have bound := wf.allocated _ _ held inside
      have bound' := wf'.allocated _ _ held' inside'
      refine .inr ⟨?_, ?_⟩
      · show order.addr ≠ loc.iter
        omega
      · show order'.addr ≠ loc'.iter
        omega

/-- A list without repeated addresses is split in one way around an address. -/
theorem split_unique {order other : Node} {ahead behind ahead' behind' : List Node}
    (distinct : ((ahead ++ order :: behind).map Node.addr).Nodup)
    (same : ahead ++ order :: behind = ahead' ++ other :: behind') (addr : order.addr = other.addr) :
    ahead = ahead' ∧ order = other ∧ behind = behind' := by
  induction ahead generalizing ahead' with
  | nil =>
    cases ahead' with
    | nil => simpa using same
    | cons first rest =>
      simp only [List.nil_append, List.cons_append, List.cons.injEq] at same
      obtain ⟨rfl, rfl⟩ := same
      simp [addr] at distinct
  | cons first rest ih =>
    cases ahead' with
    | nil =>
      simp only [List.nil_append, List.cons_append, List.cons.injEq] at same
      obtain ⟨rfl, rfl⟩ := same
      simp [addr] at distinct
    | cons first' rest' =>
      simp only [List.cons_append, List.cons.injEq, List.map_cons, List.nodup_cons] at same distinct
      obtain ⟨front, found, back⟩ := ih distinct.2 same.2
      exact ⟨by rw [same.1, front], found, back⟩

/-- The order both indexes lead to, taken out of twins. -/
theorem takenOut {orderId : Int64} {loc loc' : Location} {order order' : Node} (twins : Twins first second)
    (wf' : WellFormed second) (entry : first.index.lookup orderId = some loc)
    (entry' : second.index.lookup orderId = some loc')
    (one : TakenOut first orderId loc order next) (other : TakenOut second orderId loc' order' next') :
    Twins next next' ∧ order.view = order'.view := by
  have related := twins.index orderId
  rw [entry, entry'] at related
  obtain ⟨⟨symbol, side, price, lead⟩⟩ := related
  obtain ⟨firsts, seconds, alike⟩ := twins.pairs loc.symbol loc.side
  obtain ⟨ahead, behind, before, after⟩ := one.removed.queue
  obtain ⟨ahead', behind', before', after'⟩ := other.removed.queue
  rw [one.symbol, one.side] at before after
  rw [other.symbol, other.side, ← symbol, ← side] at before' after'
  obtain ⟨pairsAhead, pairsRest, split, rfl, rest⟩ := List.map_eq_append_iff.mp (firsts.trans before)
  obtain ⟨pair, pairsBehind, rfl, rfl, rfl⟩ := List.map_eq_cons_iff.mp rest
  have inside : pair ∈ pairsOf first second loc.symbol loc.side := by
    rw [split]
    simp
  have partner : pair.2.addr = order'.addr := by
    rw [other.addr]
    exact (lead pair inside).mp one.addr
  rw [split, List.map_append, List.map_cons] at seconds
  have distinct := wf'.distinct loc.symbol loc.side
  rw [← seconds] at distinct
  obtain ⟨rfl, rfl, rfl⟩ := split_unique distinct (seconds.trans before') partner
  have old : ∀ pair' ∈ pairsAhead ++ pairsBehind, pair' ∈ pairsOf first second loc.symbol loc.side := by
    intro pair' member
    rw [split]
    rcases List.mem_append.mp member with front | back
    · exact List.mem_append_left _ front
    · exact List.mem_append_right _ (List.mem_cons_of_mem _ back)
  have changed : OneQueue first second next next' loc.symbol loc.side (pairsAhead ++ pairsBehind) := by
    refine ⟨by rw [after]; simp, by rw [after']; simp, fun pair' member => alike pair' (old pair' member),
      fun symbol' side' away => ?_⟩
    exact ⟨resting_of_levels (one.removed.elsewhere symbol' side' (by rw [one.symbol, one.side]; tauto)),
      resting_of_levels (other.removed.elsewhere symbol' side'
        (by rw [other.symbol, other.side, ← symbol, ← side]; tauto))⟩
  refine ⟨⟨listed_of_opened twins one.opened (by rw [symbol]; exact other.opened) one.books
    (by rw [symbol]; exact other.books), queues_of_oneQueue twins changed, fun otherId => ?_⟩,
    alike pair inside⟩
  rw [one.index, other.index]
  by_cases same : otherId = orderId
  · subst same
    rw [AList.lookup_erase, AList.lookup_erase]
    exact Option.Rel.none
  · rw [AList.lookup_erase_ne same, AList.lookup_erase_ne same]
    exact entry_of_oneQueue changed (twins.index otherId) fun _ _ _ _ pair' member =>
      .inl ⟨pair', old pair' member, rfl, rfl⟩

/-! ## Twins through one command -/

/-- An event without its number. -/
def said (event : ExecEvent) : EventType × Bytes × Payload := (event.type, event.symbol, event.payload)

/-- The same trades and, up to their numbers, the same events. -/
structure SameOutcome (first second : Outcome) : Prop where
  events : first.events.map said = second.events.map said
  trades : first.trades = second.trades

theorem said_numbered (symbol : Bytes) (sequence : Int) (reports : List (EventType × Payload)) :
    (numbered symbol sequence reports).map said = reports.map fun report => (report.1, symbol, report.2) := by
  induction reports generalizing sequence with
  | nil => rfl
  | cons report rest ih => simp [numbered, said, ih]

/-- The liquidity scan reads what the orders show. -/
theorem refuses_iff (twins : Twins first second) (wf : WellFormed first) (wf' : WellFormed second)
    (cmd : AddOrder) : first.refuses cmd ↔ second.refuses cmd := by
  have seen : ∀ {engine : MatchingEngine}, WellFormed engine →
      availableVolume (engine.bookFor cmd.symbol) (opposite cmd.side) cmd.priceTicks =
        ((((engine.resting cmd.symbol (opposite cmd.side)).map Node.view).takeWhile
          fun order => !beyond (opposite cmd.side) cmd.priceTicks order.priceTicks).foldl
            (fun total order => total + order.remaining) 0) := by
    intro engine wf
    rw [PriceLevels.availableVolume_eq _ (wf.sides cmd.symbol (opposite cmd.side)), List.takeWhile_map,
      List.foldl_map]
    rfl
  rw [MatchingEngine.refuses, MatchingEngine.refuses, seen wf, seen wf', twins.queues]

theorem congr (twins : Twins first second) (books : next.books = first.books)
    (books' : next'.books = second.books) (index : next.index = first.index)
    (index' : next'.index = second.index) : Twins next next' where
  listed symbol := by rw [books, books']; exact twins.listed symbol
  queues symbol side := by
    rw [resting_congr books, resting_congr books']
    exact twins.queues symbol side
  index orderId := by
    have pairs : pairsOf next next' = pairsOf first second := by
      funext symbol side
      rw [pairsOf, pairsOf, resting_congr books, resting_congr books']
    rw [index, index', pairs]
    exact twins.index orderId

theorem settled_twins (twins : Twins mid mid') (wf : WellFormed mid) (wf' : WellFormed mid')
    (cmd : AddOrder) (remaining : Int64) : Twins (settled mid cmd remaining) (settled mid' cmd remaining) := by
  unfold settled
  split
  · rename_i resting
    have one := restOrder_inserted (wf.sides cmd.symbol cmd.side) resting.1
    have other := restOrder_inserted (wf'.sides cmd.symbol cmd.side) resting.1
    have listed : ∀ (engine : MatchingEngine) symbol, symbol ∈ (engine.restOrder cmd remaining).books ↔
        symbol = cmd.symbol ∨ symbol ∈ engine.books := by
      intro engine symbol
      simp [MatchingEngine.restOrder, MatchingEngine.setBook]
    have same : (restingNode mid cmd remaining).view = (restingNode mid' cmd remaining).view := rfl
    have rested := inserted twins wf wf' same one other rfl rfl rfl rfl (listed mid) (listed mid')
    exact congr rested rfl rfl rfl rfl
  · exact congr twins rfl rfl rfl rfl

/-- An add is answered in the same way by twins, and leaves twins. -/
theorem add (twins : Twins first second) (wf : WellFormed first) (wf' : WellFormed second)
    {outcome outcome' : Outcome} (ran : first.add cmd = .ok (next, outcome))
    (ran' : second.add cmd = .ok (next', outcome')) : Twins next next' ∧ SameOutcome outcome outcome' := by
  by_cases refused : first.refuses cmd
  · have refused' := (twins.refuses_iff wf wf' cmd).mp refused
    rw [add_refused refused] at ran
    rw [add_refused refused'] at ran'
    cases ran
    cases ran'
    have levels : ∀ (engine : MatchingEngine) symbol side,
        (engine.setBook cmd.symbol (engine.bookFor cmd.symbol)).resting symbol side =
          engine.resting symbol side := by
      intro engine symbol side
      rw [MatchingEngine.resting, levels_open]
      rfl
    have pairs : pairsOf (first.setBook cmd.symbol (first.bookFor cmd.symbol))
        (second.setBook cmd.symbol (second.bookFor cmd.symbol)) = pairsOf first second := by
      funext symbol side
      rw [pairsOf, pairsOf, levels, levels]
    have opened : Twins (first.setBook cmd.symbol (first.bookFor cmd.symbol))
        (second.setBook cmd.symbol (second.bookFor cmd.symbol)) := by
      refine ⟨fun symbol => ?_, fun symbol side => ?_, fun orderId => ?_⟩
      · simp only [MatchingEngine.setBook, AList.mem_insert, twins.listed]
      · rw [levels, levels]
        exact twins.queues symbol side
      · rw [pairs]
        exact twins.index orderId
    exact ⟨congr opened rfl rfl rfl rfl, by rw [said_numbered, said_numbered], rfl⟩
  · have refused' := fun held => refused ((twins.refuses_iff wf wf' cmd).mpr held)
    obtain ⟨mid, one, -, oneRan⟩ := add_accepted wf refused
    obtain ⟨mid', other, -, otherRan⟩ := add_accepted wf' refused'
    rw [ran] at oneRan
    rw [ran'] at otherRan
    cases oneRan
    cases otherRan
    obtain ⟨midTwins, remaining, steps⟩ := twins.matched one other
    have rested := settled_twins midTwins (matched_wellFormed wf one) (matched_wellFormed wf' other) cmd
      (first.walkOf cmd).remaining
    refine ⟨by rw [← remaining]; exact rested, ?_, trades_eq steps⟩
    rw [said_numbered, said_numbered, addReports, addReports, reports_eq steps, remaining]

/-- Twins know the same ids. -/
theorem index_cases (twins : Twins first second) (orderId : Int64) :
    (first.index.lookup orderId = none ∧ second.index.lookup orderId = none) ∨
      ∃ loc loc', first.index.lookup orderId = some loc ∧ second.index.lookup orderId = some loc' := by
  have related := twins.index orderId
  cases entry : first.index.lookup orderId with
  | none =>
    cases entry' : second.index.lookup orderId with
    | none => exact .inl ⟨rfl, rfl⟩
    | some loc' =>
      rw [entry, entry'] at related
      cases related
  | some loc =>
    cases entry' : second.index.lookup orderId with
    | none =>
      rw [entry, entry'] at related
      cases related
    | some loc' => exact .inr ⟨loc, loc', rfl, rfl⟩

theorem cancel {cmd : CancelOrder} {outcome outcome' : Outcome} (twins : Twins first second)
    (wf : WellFormed first) (wf' : WellFormed second)
    (ran : first.apply (.cancel cmd) = .ok (next, outcome))
    (ran' : second.apply (.cancel cmd) = .ok (next', outcome')) :
    Twins next next' ∧ SameOutcome outcome outcome' := by
  rcases twins.index_cases cmd.orderId with ⟨entry, entry'⟩ | ⟨loc, loc', entry, entry'⟩
  · rw [apply_cancel (cancel_unknown entry)] at ran
    rw [apply_cancel (cancel_unknown entry')] at ran'
    cases ran
    cases ran'
    exact ⟨congr twins rfl rfl rfl rfl, by rw [said_numbered, said_numbered], rfl⟩
  · obtain ⟨order, mid, one, oneRan⟩ := cancel_known wf cmd entry
    obtain ⟨order', mid', other, otherRan⟩ := cancel_known wf' cmd entry'
    rw [apply_cancel oneRan] at ran
    rw [apply_cancel otherRan] at ran'
    cases ran
    cases ran'
    obtain ⟨left, same⟩ := twins.takenOut wf' entry entry' one other
    obtain ⟨-, -, -, -, -, remaining⟩ := view_fields same
    exact ⟨left, by rw [said_numbered, said_numbered, remaining], rfl⟩

theorem replace {cmd : ReplaceOrder} {outcome outcome' : Outcome} (twins : Twins first second)
    (wf : WellFormed first) (wf' : WellFormed second)
    (ran : first.apply (.replace cmd) = .ok (next, outcome))
    (ran' : second.apply (.replace cmd) = .ok (next', outcome')) :
    Twins next next' ∧ SameOutcome outcome outcome' := by
  rcases twins.index_cases cmd.orderId with ⟨entry, entry'⟩ | ⟨loc, loc', entry, entry'⟩
  · rw [MatchingEngine.apply, replace_unknown entry] at ran
    rw [MatchingEngine.apply, replace_unknown entry'] at ran'
    cases ran
    cases ran'
    exact ⟨congr twins rfl rfl rfl rfl, by rw [said_numbered, said_numbered], rfl⟩
  · obtain ⟨order, mid, one, oneRan⟩ := cancel_known wf ⟨cmd.symbol, cmd.orderId⟩ entry
    obtain ⟨order', mid', other, otherRan⟩ := cancel_known wf' ⟨cmd.symbol, cmd.orderId⟩ entry'
    obtain ⟨left, same⟩ := twins.takenOut wf' entry entry' one other
    obtain ⟨-, -, owner, ownSide, -, remaining⟩ := view_fields same
    obtain ⟨next, added, oneAdd, -⟩ := add_wellFormed one.wellFormed
      (MatchingEngine.replacementOrder cmd order.participantId loc.side)
    obtain ⟨next', added', otherAdd, -⟩ := add_wellFormed other.wellFormed
      (MatchingEngine.replacementOrder cmd order'.participantId loc'.side)
    rw [MatchingEngine.apply, replace_known entry one.reached oneRan oneAdd] at ran
    rw [MatchingEngine.apply, replace_known entry' other.reached otherRan otherAdd] at ran'
    cases ran
    cases ran'
    -- Both replacements are the same command.
    rw [← owner, ← other.side, ← ownSide, one.side] at otherAdd
    obtain ⟨after, answer⟩ := left.add one.wellFormed other.wellFormed oneAdd otherAdd
    refine ⟨after, ?_, answer.trades⟩
    rw [List.map_append, List.map_append, said_numbered, said_numbered, remaining, answer.events]

/-- Every command takes twins to twins, with the same answer. -/
theorem apply (twins : Twins first second) (wf : WellFormed first) (wf' : WellFormed second)
    {command : Command} {outcome outcome' : Outcome} (ran : first.apply command = .ok (next, outcome))
    (ran' : second.apply command = .ok (next', outcome')) :
    Twins next next' ∧ SameOutcome outcome outcome' := by
  cases command with
  | add cmd => exact twins.add wf wf' ran ran'
  | cancel cmd => exact twins.cancel wf wf' ran ran'
  | replace cmd => exact twins.replace wf wf' ran ran'

/-! ## What twins have in common, as stored -/

/-- A stored side: its levels from the best price on, each with its orders. -/
def sideView (side : Side) (levels : BookSide) : List (Int64 × List OrderView) :=
  (bestFirst side levels).map fun entry => (entry.1, entry.2.map Node.view)

end Twins

/-- The same symbols with the same price levels, holding the same orders in the same order. -/
def SameBooks (first second : MatchingEngine) : Prop :=
  ∀ symbol, (first.books.lookup symbol).map
      (fun book => (Twins.sideView .buy book.bids, Twins.sideView .sell book.asks)) =
    (second.books.lookup symbol).map
      (fun book => (Twins.sideView .buy book.bids, Twins.sideView .sell book.asks))

/-- The same orders rest in the same order at every symbol and side; a book
without orders is as good as none. -/
def SameResting (first second : MatchingEngine) : Prop :=
  ∀ symbol side, Twins.sideView side (first.levels symbol side) = Twins.sideView side (second.levels symbol side)

theorem SameResting.congr {first second : MatchingEngine} (same : SameResting first second) (other : MatchingEngine) :
    SameResting first other ↔ SameResting second other :=
  forall_congr' fun symbol => forall_congr' fun side => by rw [same symbol side]

/-- Where the index leads for an id: book, side, level and place in the level. -/
def MatchingEngine.whereIs (engine : MatchingEngine) (orderId : Int64) :
    Option (Bytes × Side × Int64 × Option Nat) :=
  (engine.index.lookup orderId).map fun loc => (loc.symbol, loc.side, loc.price,
    ((engine.levels loc.symbol loc.side).find loc.price).bind
      fun level => level.findIdx? fun order => order.addr = loc.iter)

namespace Twins
variable {first second : MatchingEngine} {symbol : Bytes} {side : Side}

/-- A level is the longest front of the row at its first price. -/
theorem front_level {entry : Int64 × Level} {rest : List (Int64 × Level)}
    (priced : ∀ order ∈ entry.2, order.priceTicks = entry.1)
    (others : ∀ other ∈ rest, ∀ order ∈ other.2, order.priceTicks = other.1)
    (different : ∀ other ∈ rest, entry.1 ≠ other.1) :
    (((entry :: rest).flatMap Prod.snd).map Node.view).takeWhile (fun order => order.priceTicks = entry.1) =
      entry.2.map Node.view ∧
    (((entry :: rest).flatMap Prod.snd).map Node.view).dropWhile (fun order => order.priceTicks = entry.1) =
      (rest.flatMap Prod.snd).map Node.view := by
  have front : ∀ order ∈ entry.2.map Node.view, decide (order.priceTicks = entry.1) = true := by
    intro order member
    obtain ⟨node, inside, rfl⟩ := List.mem_map.mp member
    simp [Node.view, priced node inside]
  rw [List.flatMap_cons, List.map_append, List.takeWhile_append_of_pos front, List.dropWhile_append_of_pos front]
  cases shape : rest.flatMap Prod.snd with
  | nil => simp
  | cons order orders =>
    obtain ⟨other, held, inside⟩ := List.mem_flatMap.mp (show order ∈ rest.flatMap Prod.snd by simp [shape])
    have away : order.priceTicks ≠ entry.1 := by
      rw [others other held order inside]
      exact (different other held).symm
    simp [Node.view, away]

/-- Non-empty levels of different prices are determined by their orders in a row. -/
theorem levels_of_orders {entries entries' : List (Int64 × Level)}
    (stored : ∀ entry ∈ entries, entry.2 ≠ [] ∧ ∀ order ∈ entry.2, order.priceTicks = entry.1)
    (stored' : ∀ entry ∈ entries', entry.2 ≠ [] ∧ ∀ order ∈ entry.2, order.priceTicks = entry.1)
    (apart : entries.Pairwise fun one other => one.1 ≠ other.1)
    (apart' : entries'.Pairwise fun one other => one.1 ≠ other.1)
    (same : (entries.flatMap Prod.snd).map Node.view = (entries'.flatMap Prod.snd).map Node.view) :
    entries.map (fun entry => (entry.1, entry.2.map Node.view)) =
      entries'.map (fun entry => (entry.1, entry.2.map Node.view)) := by
  induction entries generalizing entries' with
  | nil =>
    cases entries' with
    | nil => rfl
    | cons entry' rest' =>
      have filled := (stored' entry' (by simp)).1
      simp [filled] at same
  | cons entry rest ih =>
    cases entries' with
    | nil =>
      have filled := (stored entry (by simp)).1
      simp [filled] at same
    | cons entry' rest' =>
      obtain ⟨filled, priced⟩ := stored entry (by simp)
      obtain ⟨filled', priced'⟩ := stored' entry' (by simp)
      obtain ⟨order, orders, shape⟩ := List.exists_cons_of_ne_nil filled
      obtain ⟨order', orders', shape'⟩ := List.exists_cons_of_ne_nil filled'
      have key : entry.1 = entry'.1 := by
        have heads : order.view = order'.view := by
          simp only [List.flatMap_cons, shape, shape', List.cons_append, List.map_cons,
            List.cons.injEq] at same
          exact same.1
        rw [← priced order (by simp [shape]), ← priced' order' (by simp [shape'])]
        exact (view_fields heads).2.2.2.2.1
      rw [List.pairwise_cons] at apart apart'
      have later := fun entry member => stored entry (List.mem_cons_of_mem _ member)
      have later' := fun entry member => stored' entry (List.mem_cons_of_mem _ member)
      obtain ⟨level, others⟩ := front_level priced (fun other member => (later other member).2) apart.1
      obtain ⟨level', others'⟩ := front_level priced' (fun other member => (later' other member).2) apart'.1
      rw [same, key] at level others
      rw [List.map_cons, List.map_cons, key, ← level, ← level',
        ih later later' apart.2 apart'.2 (others.symm.trans others')]

theorem sideView_of_queue {levels levels' : BookSide} (wf : SideWellFormed symbol side levels)
    (wf' : SideWellFormed symbol side levels')
    (same : (queue side levels).map Node.view = (queue side levels').map Node.view) :
    sideView side levels = sideView side levels' := by
  have stored : ∀ {levels : BookSide}, SideWellFormed symbol side levels →
      ∀ entry ∈ bestFirst side levels, entry.2 ≠ [] ∧ ∀ order ∈ entry.2, order.priceTicks = entry.1 := by
    intro levels wf entry member
    have placed := PriceLevels.bestFirst_wellFormed wf entry member
    exact ⟨placed.1, fun order inside => (placed.2 order inside).price⟩
  have apart : ∀ levels : BookSide, (bestFirst side levels).Pairwise fun one other => one.1 ≠ other.1 := by
    intro levels
    exact (PriceLevels.bestFirst_sorted side levels).imp fun before => PriceLevels.beyond_ne before
  exact levels_of_orders (stored wf) (stored wf') (apart levels) (apart levels') same

theorem sameResting (twins : Twins first second) (wf : WellFormed first) (wf' : WellFormed second) :
    SameResting first second := fun symbol side =>
  sideView_of_queue (wf.sides symbol side) (wf'.sides symbol side) (twins.queues symbol side)

/-- Twins store the same books. -/
theorem sameBooks (twins : Twins first second) (wf : WellFormed first) (wf' : WellFormed second) :
    SameBooks first second := by
  intro symbol
  have bids := twins.sameResting wf wf' symbol .buy
  have asks := twins.sameResting wf wf' symbol .sell
  have listed := twins.listed symbol
  rw [← AList.lookup_isSome, ← AList.lookup_isSome] at listed
  unfold MatchingEngine.levels MatchingEngine.bookFor at bids asks
  cases one : first.books.lookup symbol with
  | none =>
    cases other : second.books.lookup symbol with
    | none => rfl
    | some book' => simp [one, other] at listed
  | some book =>
    cases other : second.books.lookup symbol with
    | none => simp [one, other] at listed
    | some book' =>
      simp only [one, other, Option.getD_some, Book.side] at bids asks
      simp [bids, asks]

theorem findIdx_of_pairs (here here' : Node → Bool) {level level' : List Node}
    (size : level.length = level'.length)
    (lead : ∀ pair ∈ level.zip level', here pair.1 = true ↔ here' pair.2 = true) :
    level.findIdx? here = level'.findIdx? here' := by
  induction level generalizing level' with
  | nil =>
    cases level' with
    | nil => rfl
    | cons order' rest' => simp at size
  | cons order rest ih =>
    cases level' with
    | nil => simp at size
    | cons order' rest' =>
      have first := lead (order, order') (by simp)
      have later := ih (by simpa using size) fun pair member => lead pair (by simp [member])
      rw [List.findIdx?_cons, List.findIdx?_cons, later]
      by_cases found : here order = true
      · simp [found, first.mp found]
      · have missed : ¬ here' order' = true := fun held => found (first.mpr held)
        simp [found, missed]

theorem flatMap_length_of_views {entries entries' : List (Int64 × Level)}
    (same : entries.map (fun entry => (entry.1, entry.2.map Node.view)) =
      entries'.map (fun entry => (entry.1, entry.2.map Node.view))) :
    (entries.flatMap Prod.snd).length = (entries'.flatMap Prod.snd).length := by
  induction entries generalizing entries' with
  | nil =>
    cases entries' with
    | nil => rfl
    | cons entry' rest' => simp at same
  | cons entry rest ih =>
    cases entries' with
    | nil => simp at same
    | cons entry' rest' =>
      simp only [List.map_cons, List.cons.injEq, Prod.mk.injEq] at same
      have size : entry.2.length = entry'.2.length := by simpa using congrArg List.length same.1.2
      simp only [List.flatMap_cons, List.length_append, size, ih same.2]

/-- The indexes of twins lead to the same places. -/
theorem whereIs_eq (twins : Twins first second) (wf : WellFormed first) (wf' : WellFormed second)
    (orderId : Int64) : first.whereIs orderId = second.whereIs orderId := by
  have related := twins.index orderId
  have located := wf.located orderId
  unfold MatchingEngine.whereIs
  generalize first.index.lookup orderId = entry at related located ⊢
  generalize second.index.lookup orderId = entry' at related ⊢
  cases related with
  | none => rfl
  | @some loc loc' same =>
    obtain ⟨symbol, side, price, lead⟩ := same
    obtain ⟨order, member, -, priced, -⟩ := located loc rfl
    obtain ⟨-, level, found, -⟩ := PriceLevels.level_of_mem_queue (wf.sides _ _) member
    rw [priced] at found
    obtain ⟨ahead, behind, split⟩ := PriceLevels.bestFirst_of_find loc.side found
    have views : sideView loc.side (first.levels loc.symbol loc.side) =
        sideView loc.side (second.levels loc.symbol loc.side) :=
      sideView_of_queue (wf.sides _ _) (wf'.sides _ _) (twins.queues _ _)
    rw [sideView, sideView, split, List.map_append, List.map_cons] at views
    obtain ⟨ahead', rest', split', aheadViews, restViews⟩ := List.map_eq_append_iff.mp views.symm
    obtain ⟨⟨price', level'⟩, behind', rfl, levelView, -⟩ := List.map_eq_cons_iff.mp restViews
    simp only [Prod.mk.injEq] at levelView
    obtain ⟨rfl, orders⟩ := levelView
    have found' := PriceLevels.find_of_bestFirst split'
    have size : level.length = level'.length := by simpa using (congrArg List.length orders).symm
    have inside : ∀ pair ∈ level.zip level', pair ∈ pairsOf first second loc.symbol loc.side := by
      intro pair member
      rw [pairsOf, MatchingEngine.resting, MatchingEngine.resting, PriceLevels.queue_of_split split,
        PriceLevels.queue_of_split split', List.append_assoc, List.append_assoc,
        List.zip_append (flatMap_length_of_views aheadViews.symm), List.zip_append size]
      exact List.mem_append_right _ (List.mem_append_left _ member)
    have place := findIdx_of_pairs (fun order => order.addr = loc.iter)
      (fun order => order.addr = loc'.iter) size
      fun pair member => by simpa using lead pair (inside pair member)
    simp only [Option.map_some, ← symbol, ← side, ← price, found, found', Option.bind_some, place]

end Twins
end Exchange
