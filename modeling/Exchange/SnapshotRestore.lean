import Exchange.JsonRoundTrip
import Exchange.OrderIndex
import Exchange.Snapshot
import Exchange.Twins

/-! A snapshot restores a twin. Loading rests the stored orders one by one,
best price first and first in first out, so each one goes to the back of its
queue; with no id resting twice, the index that the new nodes build leads where
the old one led. The restored engine may be missing orders until the document
is read to its end, which is what `Part` says. -/
namespace Exchange.SnapshotRestore
open EngineSteps EngineInvariant OrderIndex Twins
open MatchingEngine (restoreOrder restoreLevel restoreSide restoreBook orderJson levelJson bookJson)

variable {engine part next : MatchingEngine} {symbol : Bytes} {side : Side} {order : Node}

/-- Where every order is found by its id, engines that show the same are twins. -/
theorem twins_of_indexed {first second : MatchingEngine} (wf : WellFormed first) (wf' : WellFormed second)
    (indexed : Indexed first) (indexed' : Indexed second)
    (listed : ∀ symbol, symbol ∈ first.books ↔ symbol ∈ second.books)
    (queues : ∀ symbol side, (first.resting symbol side).map Node.view =
      (second.resting symbol side).map Node.view) : Twins first second := by
  have partner : ∀ {first second : MatchingEngine} {symbol side}, (first.resting symbol side).map Node.view =
      (second.resting symbol side).map Node.view → ∀ order ∈ first.resting symbol side,
      ∃ order' ∈ second.resting symbol side, order'.view = order.view := by
    intro first second symbol side same order member
    have seen : order.view ∈ (second.resting symbol side).map Node.view := by
      rw [← same]
      exact List.mem_map_of_mem member
    obtain ⟨order', member', view⟩ := List.mem_map.mp seen
    exact ⟨order', member', view⟩
  refine ⟨listed, queues, fun orderId => ?_⟩
  cases entry : first.index.lookup orderId with
  | none =>
    cases entry' : second.index.lookup orderId with
    | none => exact Option.Rel.none
    | some loc' =>
      obtain ⟨order', member', -, -, named'⟩ := wf'.located orderId loc' entry'
      obtain ⟨order, member, view⟩ := partner (queues loc'.symbol loc'.side).symm order' member'
      have found := indexed _ _ order member
      rw [(view_fields view).2.1, named', entry] at found
      cases found
  | some loc =>
    obtain ⟨order, member, addr, price, named⟩ := wf.located orderId loc entry
    obtain ⟨order', member', view⟩ := partner (queues loc.symbol loc.side) order member
    obtain ⟨-, sameId, -, -, samePrice, -⟩ := view_fields view
    have found := indexed' _ _ order' member'
    rw [sameId, named] at found
    rw [found]
    refine Option.Rel.some ⟨rfl, rfl, by rw [samePrice, price], fun pair inside => ?_⟩
    obtain ⟨inFirst, inSecond⟩ := List.of_mem_zip inside
    have pairView := (pairs_of_views (queues loc.symbol loc.side)).2.2 pair inside
    have pairId := (view_fields pairView).2.1
    -- Either side of the pair is the order with the id, or neither is.
    constructor
    · intro here
      have same : pair.1 = order :=
        List.inj_on_of_nodup_map (wf.distinct _ _) inFirst member (here.trans addr.symm)
      have same' := (same_id_same_order wf' indexed' inSecond member'
        (by rw [← pairId, same, sameId])).2.2
      rw [same']
    · intro here
      have same' : pair.2 = order' := List.inj_on_of_nodup_map (wf'.distinct _ _) inSecond member' here
      have same := (same_id_same_order wf indexed inFirst member
        (by rw [pairId, same', sameId])).2.2
      rw [same, addr]

/-! ## Reading the document back -/

/-- The command that rests a stored order. -/
def restCommand (order : Node) : AddOrder where
  symbol := order.symbol
  orderId := order.orderId
  participantId := order.participantId
  side := order.side
  priceTicks := order.priceTicks
  quantity := order.remaining
  timeInForce := .gtc

/-- Orders rested one after the other. -/
def restAll (engine : MatchingEngine) (orders : List Node) : MatchingEngine :=
  orders.foldl (fun engine order => engine.restOrder (restCommand order) order.remaining) engine

theorem restoreOrder_orderJson (engine : MatchingEngine) (placed : Placed symbol side order.priceTicks order) :
    restoreOrder symbol side (.int order.priceTicks) engine (orderJson order.toRestingOrder) =
      engine.restOrder (restCommand order) order.remaining := by
  have fields := placed
  obtain ⟨rfl, rfl, -, -⟩ := fields
  rfl

theorem restoreLevel_levelJson (engine : MatchingEngine) (entry : Int64 × Level)
    (placed : ∀ order ∈ entry.2, Placed symbol side entry.1 order) :
    restoreLevel symbol side engine (levelJson entry) = restAll engine entry.2 := by
  have shape : restoreLevel symbol side engine (levelJson entry) =
      (entry.2.map fun order => orderJson order.toRestingOrder).foldl
        (restoreOrder symbol side (.int entry.1)) engine := rfl
  rw [shape, List.foldl_map]
  obtain ⟨price, level⟩ := entry
  unfold restAll
  clear shape
  induction level generalizing engine with
  | nil => rfl
  | cons order rest ih =>
    have here := placed order (by simp)
    have step : restoreOrder symbol side (.int order.priceTicks) engine _ = _ :=
      restoreOrder_orderJson engine (by rw [here.price]; exact here)
    rw [here.price] at step
    rw [List.foldl_cons, List.foldl_cons, step]
    exact ih _ fun other member => placed other (List.mem_cons_of_mem _ member)

/-- A serialised side is restored by resting its queue in order. -/
theorem restoreSide_serializeSide (engine : MatchingEngine) {book : Book}
    (wf : SideWellFormed symbol side (book.side side)) :
    engine.restoreSide symbol (MatchingEngine.serializeSide book side) side =
      restAll (engine.setBook symbol (engine.bookFor symbol)) (queue side (book.side side)) := by
  have stored := PriceLevels.bestFirst_wellFormed wf
  have shape : engine.restoreSide symbol (MatchingEngine.serializeSide book side) side =
      ((bestFirst side (book.side side)).map levelJson).foldl (restoreLevel symbol side)
        (engine.setBook symbol (engine.bookFor symbol)) := rfl
  rw [shape, List.foldl_map, queue]
  generalize engine.setBook symbol (engine.bookFor symbol) = engine
  generalize bestFirst side (book.side side) = entries at stored
  clear shape
  induction entries generalizing engine with
  | nil => rfl
  | cons entry rest ih =>
    rw [List.foldl_cons, restoreLevel_levelJson engine entry (stored entry (by simp)).2, ih _
      fun other member => stored other (List.mem_cons_of_mem _ member)]
    simp [restAll]

/-! ## Resting part of an engine's orders again -/

/-- A sound engine that shows the front of every queue of `engine`. -/
structure Part (engine part : MatchingEngine) : Prop where
  wellFormed : WellFormed part
  indexed : Indexed part
  views : ∀ symbol side, (part.resting symbol side).map Node.view <+:
    (engine.resting symbol side).map Node.view

theorem part_source (part_ : Part engine part) {held : Node} (member : held ∈ part.resting symbol side) :
    ∃ source ∈ engine.resting symbol side, source.view = held.view := by
  have seen := (part_.views symbol side).subset (List.mem_map_of_mem member)
  exact List.mem_map.mp seen

section NextOrder

/-! The next order of a queue, `done` being the part of the queue that is there. -/

variable {done later : List Node}

theorem done_source (there : (part.resting symbol side).map Node.view = done.map Node.view) {held : Node}
    (member : held ∈ part.resting symbol side) : ∃ source ∈ done, source.view = held.view := by
  have seen : held.view ∈ done.map Node.view := by
    rw [← there]
    exact List.mem_map_of_mem member
  exact List.mem_map.mp seen

/-- Nothing that is there is beyond the next order. -/
theorem not_beyond_next (wf : WellFormed engine) (shape : engine.resting symbol side = done ++ order :: later)
    (there : (part.resting symbol side).map Node.view = done.map Node.view) {held : Node}
    (member : held ∈ part.resting symbol side) : beyond side order.priceTicks held.priceTicks = false := by
  have sorted := PriceLevels.queue_sorted (wf.sides symbol side)
  change (engine.resting symbol side).Pairwise _ at sorted
  rw [shape, List.pairwise_append] at sorted
  obtain ⟨source, sourceIn, view⟩ := done_source there member
  rw [← (view_fields view).2.2.2.2.1]
  exact sorted.2.2 source sourceIn order (by simp)

/-- Nothing that is there has the id of the next order. -/
theorem next_is_new (wf : WellFormed engine) (indexed : Indexed engine) (part_ : Part engine part)
    (shape : engine.resting symbol side = done ++ order :: later)
    (there : (part.resting symbol side).map Node.view = done.map Node.view) {symbol' : Bytes} {side' : Side}
    {held : Node} (member : held ∈ part.resting symbol' side') : held.orderId ≠ order.orderId := by
  intro sameId
  have next : order ∈ engine.resting symbol side := by simp [shape]
  obtain ⟨source, sourceIn, view⟩ := part_source part_ member
  obtain ⟨rfl, rfl, -⟩ := same_id_same_order wf indexed sourceIn next ((view_fields view).2.1.trans sameId)
  -- So an order of `done` has this order's id, and is this order.
  obtain ⟨earlier, inDone, view⟩ := done_source there member
  have same := (same_id_same_order wf indexed (by rw [shape]; exact List.mem_append_left _ inDone) next
    ((view_fields view).2.1.trans sameId)).2.2
  have distinct := List.Nodup.of_map _ (wf.distinct symbol' side')
  rw [shape, List.nodup_append] at distinct
  exact distinct.2.2 earlier inDone order (by simp) same

/-- Nothing that faces an order of the engine crosses it. -/
theorem part_uncrossed (wf : WellFormed engine) (part_ : Part engine part)
    (member : order ∈ engine.resting symbol side) {facing : Node}
    (facingIn : facing ∈ part.resting symbol (opposite side)) :
    beyond (opposite side) order.priceTicks facing.priceTicks = true := by
  obtain ⟨source, sourceIn, view⟩ := part_source part_ facingIn
  rw [← (view_fields view).2.2.2.2.1]
  cases side with
  | buy => simpa [opposite, beyond] using wf.uncrossed symbol order member source sourceIn
  | sell => simpa [opposite, beyond] using wf.uncrossed symbol source sourceIn order member

/-- The next order of a queue goes to the back of the part of it that is there. -/
theorem restOrder_part (wf : WellFormed engine) (indexed : Indexed engine) (part_ : Part engine part)
    (shape : engine.resting symbol side = done ++ order :: later)
    (there : (part.resting symbol side).map Node.view = done.map Node.view) :
    Part engine (part.restOrder (restCommand order) order.remaining) ∧
      ((part.restOrder (restCommand order) order.remaining).resting symbol side).map Node.view =
        (done ++ [order]).map Node.view ∧
      ∀ symbol' side', ¬ (symbol' = symbol ∧ side' = side) →
        (part.restOrder (restCommand order) order.remaining).resting symbol' side' =
          part.resting symbol' side' := by
  have member : order ∈ engine.resting symbol side := by simp [shape]
  obtain ⟨placed, -⟩ := PriceLevels.level_of_mem_queue (wf.sides symbol side) member
  obtain ⟨rfl, rfl, -, positive⟩ := placed
  have inserted : Inserted part (restingNode part (restCommand order) order.remaining)
      (part.restOrder (restCommand order) order.remaining) :=
    restOrder_inserted (part_.wellFormed.sides order.symbol order.side) positive
  set next := part.restOrder (restCommand order) order.remaining with nextIs
  set node := restingNode part (restCommand order) order.remaining with nodeIs
  -- Everything resting so far came before this order, so nothing is behind it.
  have back : next.resting order.symbol order.side = part.resting order.symbol order.side ++ [node] := by
    obtain ⟨ahead, behind, before, after, -, beyondNext⟩ := inserted.queue
    change part.resting order.symbol order.side = _ at before
    have empty : behind = [] := by
      refine List.eq_nil_iff_forall_not_mem.mpr fun held inside => ?_
      have first := not_beyond_next wf shape there (by rw [before]; exact List.mem_append_right _ inside)
      exact absurd (beyondNext held inside) (by rw [Bool.not_eq_true]; exact first)
    subst empty
    rw [List.append_nil] at before
    rw [before]
    exact after
  have grown : (next.resting order.symbol order.side).map Node.view = (done ++ [order]).map Node.view := by
    rw [back, List.map_append, there, List.map_append]
    rfl
  have elsewhere : ∀ symbol' side', ¬ (symbol' = order.symbol ∧ side' = order.side) →
      next.resting symbol' side' = part.resting symbol' side' := by
    intro symbol' side' away
    exact resting_of_levels (inserted.elsewhere symbol' side'
      (by change symbol' ≠ order.symbol ∨ side' ≠ order.side; tauto))
  refine ⟨⟨inserted_wellFormed part_.wellFormed inserted rfl rfl rfl
      fun facing facingIn => part_uncrossed wf part_ member facingIn,
    inserted_indexed part_.indexed inserted rfl
      fun symbol' side' held heldIn => next_is_new wf indexed part_ shape there heldIn,
    fun symbol' side' => ?_⟩, grown, elsewhere⟩
  by_cases here : symbol' = order.symbol ∧ side' = order.side
  · obtain ⟨rfl, rfl⟩ := here
    rw [grown, shape]
    exact ⟨later.map Node.view, by simp⟩
  · rw [elsewhere symbol' side' here]
    exact part_.views symbol' side'

end NextOrder

theorem mem_restOrder_books (part : MatchingEngine) (cmd : AddOrder) (remaining : Int64) (symbol : Bytes) :
    symbol ∈ (part.restOrder cmd remaining).books ↔ symbol = cmd.symbol ∨ symbol ∈ part.books := by
  simp [MatchingEngine.restOrder, MatchingEngine.setBook]

/-- Resting the rest of a queue completes it and touches no other. -/
theorem restAll_part (wf : WellFormed engine) (indexed : Indexed engine) {done later : List Node}
    (part_ : Part engine part) (opened : symbol ∈ part.books)
    (shape : engine.resting symbol side = done ++ later)
    (there : (part.resting symbol side).map Node.view = done.map Node.view) :
    Part engine (restAll part later) ∧
      ((restAll part later).resting symbol side).map Node.view =
        (engine.resting symbol side).map Node.view ∧
      (∀ symbol' side', ¬ (symbol' = symbol ∧ side' = side) →
        (restAll part later).resting symbol' side' = part.resting symbol' side') ∧
      (∀ symbol', symbol' ∈ (restAll part later).books ↔ symbol' ∈ part.books) := by
  induction later generalizing part done with
  | nil =>
    rw [List.append_nil] at shape
    exact ⟨part_, by rw [shape]; exact there, fun _ _ _ => rfl, fun _ => Iff.rfl⟩
  | cons order later ih =>
    obtain ⟨nextPart, grown, elsewhere⟩ := restOrder_part wf indexed part_ shape there
    have place : order.symbol = symbol :=
      (PriceLevels.level_of_mem_queue (wf.sides symbol side) (by
        change order ∈ engine.resting symbol side
        simp [shape])).1.symbol
    have books : ∀ symbol', symbol' ∈ (part.restOrder (restCommand order) order.remaining).books ↔
        symbol' ∈ part.books := by
      intro symbol'
      rw [mem_restOrder_books]
      constructor
      · rintro (same | held)
        · rw [same]
          change order.symbol ∈ part.books
          rw [place]
          exact opened
        · exact held
      · exact Or.inr
    obtain ⟨whole, views, others, symbols⟩ := ih nextPart ((books symbol).mpr opened)
      (by rw [shape]; simp) grown
    refine ⟨whole, views, fun symbol' side' away => ?_, fun symbol' => (symbols symbol').trans (books symbol')⟩
    exact (others symbol' side' away).trans (elsewhere symbol' side' away)

/-! ## Whole documents -/

theorem part_open (part_ : Part engine part) (symbol : Bytes) :
    Part engine (part.setBook symbol (part.bookFor symbol)) where
  wellFormed := wellFormed_congr part_.wellFormed (fun _ _ => levels_open part symbol _ _) rfl rfl
  indexed := indexed_congr part_.indexed (fun _ _ => levels_open part symbol _ _) rfl
  views symbol' side := by
    rw [MatchingEngine.resting, levels_open]
    exact part_.views symbol' side

/-- One side of one book: its queue is restored, everything else stays. -/
theorem restoreSide_part (wf : WellFormed engine) (indexed : Indexed engine) (part_ : Part engine part)
    {book : Book} (entry : engine.books.lookup symbol = some book) (side : Side)
    (empty : part.resting symbol side = []) :
    Part engine (part.restoreSide symbol (MatchingEngine.serializeSide book side) side) ∧
      ((part.restoreSide symbol (MatchingEngine.serializeSide book side) side).resting symbol side).map
        Node.view = (engine.resting symbol side).map Node.view ∧
      (∀ symbol' side', ¬ (symbol' = symbol ∧ side' = side) →
        (part.restoreSide symbol (MatchingEngine.serializeSide book side) side).resting symbol' side' =
          part.resting symbol' side') ∧
      (∀ symbol', symbol' ∈ (part.restoreSide symbol (MatchingEngine.serializeSide book side) side).books ↔
        symbol' = symbol ∨ symbol' ∈ part.books) := by
  have stored : engine.levels symbol side = book.side side := by
    simp [MatchingEngine.levels, MatchingEngine.bookFor, entry]
  have sideWf : SideWellFormed symbol side (book.side side) := by
    rw [← stored]
    exact wf.sides symbol side
  rw [restoreSide_serializeSide part sideWf]
  have opening : ∀ symbol' side', (part.setBook symbol (part.bookFor symbol)).resting symbol' side' =
      part.resting symbol' side' := by
    intro symbol' side'
    rw [MatchingEngine.resting, levels_open]
    rfl
  have whole : engine.resting symbol side = [] ++ queue side (book.side side) := by
    rw [MatchingEngine.resting, stored, List.nil_append]
  obtain ⟨after, views, others, books⟩ := restAll_part wf indexed (part_open part_ symbol)
    (by simp [MatchingEngine.setBook]) whole (by rw [opening, empty])
  refine ⟨after, views, fun symbol' side' away => (others symbol' side' away).trans (opening symbol' side'),
    fun symbol' => (books symbol').trans ?_⟩
  simp [MatchingEngine.setBook]

theorem restoreBook_part (wf : WellFormed engine) (indexed : Indexed engine) (part_ : Part engine part)
    {book : Book} (entry : engine.books.lookup symbol = some book)
    (empty : ∀ side, part.resting symbol side = []) :
    ∃ next, restoreBook part (symbol, bookJson book) = .ok next ∧ Part engine next ∧
      (∀ side, (next.resting symbol side).map Node.view = (engine.resting symbol side).map Node.view) ∧
      (∀ symbol' side, symbol' ≠ symbol → next.resting symbol' side = part.resting symbol' side) ∧
      (∀ symbol', symbol' ∈ next.books ↔ symbol' = symbol ∨ symbol' ∈ part.books) := by
  obtain ⟨bidsPart, bids, others, books⟩ := restoreSide_part wf indexed part_ entry .buy (empty .buy)
  obtain ⟨asksPart, asks, others', books'⟩ := restoreSide_part wf indexed bidsPart entry .sell
    (by rw [others symbol .sell (by simp)]; exact empty .sell)
  refine ⟨(part.restoreSide symbol (MatchingEngine.serializeSide book .buy) .buy).restoreSide symbol
    (MatchingEngine.serializeSide book .sell) .sell, rfl, asksPart, fun side => ?_,
    fun symbol' side away => ?_, fun symbol' => ?_⟩
  · cases side with
    | buy =>
      rw [others' symbol .buy (by simp)]
      exact bids
    | sell => exact asks
  · rw [others' symbol' side (by tauto), others symbol' side (by tauto)]
  · rw [books', books]
    tauto

/-- All books of a document, one after the other. -/
theorem restoreBooks_part (wf : WellFormed engine) (indexed : Indexed engine)
    {entries : List (Sigma fun _ : Bytes => Book)} (distinct : entries.NodupKeys)
    (stored : ∀ entry ∈ entries, engine.books.lookup entry.1 = some entry.2) (part_ : Part engine part)
    (empty : ∀ entry ∈ entries, ∀ side, part.resting entry.1 side = []) :
    ∃ next, (entries.map fun entry => (entry.1, bookJson entry.2)).foldlM restoreBook part = .ok next ∧
      Part engine next ∧
      (∀ entry ∈ entries, ∀ side, (next.resting entry.1 side).map Node.view =
        (engine.resting entry.1 side).map Node.view) ∧
      (∀ symbol side, (∀ entry ∈ entries, entry.1 ≠ symbol) →
        next.resting symbol side = part.resting symbol side) ∧
      (∀ symbol, symbol ∈ next.books ↔ (∃ entry ∈ entries, entry.1 = symbol) ∨ symbol ∈ part.books) := by
  induction entries generalizing part with
  | nil => exact ⟨part, rfl, part_, by simp, fun _ _ _ => rfl, by simp⟩
  | cons entry entries ih =>
    obtain ⟨symbol, book⟩ := entry
    rw [List.nodupKeys_cons] at distinct
    have absent : ∀ entry ∈ entries, entry.1 ≠ symbol := by
      intro other member same
      have key : other.1 ∈ entries.keys := List.mem_map_of_mem member
      rw [same] at key
      exact distinct.1 key
    obtain ⟨mid, ran, midPart, views, others, books⟩ := restoreBook_part wf indexed part_
      (stored ⟨symbol, book⟩ (by simp)) (empty ⟨symbol, book⟩ (by simp))
    obtain ⟨next, ranRest, nextPart, viewsRest, othersRest, booksRest⟩ := ih distinct.2
      (fun entry member => stored entry (List.mem_cons_of_mem _ member)) midPart
      (fun entry member side => by
        rw [others entry.1 side (absent entry member)]
        exact empty entry (List.mem_cons_of_mem _ member) side)
    refine ⟨next, ?_, nextPart, ?_, ?_, ?_⟩
    · rw [List.map_cons, List.foldlM_cons, ran]
      exact ranRest
    · intro entry member side
      rcases List.mem_cons.mp member with rfl | later
      · rw [othersRest symbol side absent]
        exact views side
      · exact viewsRest entry later side
    · intro symbol' side away
      rw [othersRest symbol' side fun entry member => away entry (List.mem_cons_of_mem _ member),
        others symbol' side (away ⟨symbol, book⟩ (by simp)).symm]
    · intro symbol'
      rw [booksRest, books]
      constructor
      · rintro (⟨entry, member, same⟩ | same | held)
        · exact .inl ⟨entry, List.mem_cons_of_mem _ member, same⟩
        · exact .inl ⟨⟨symbol, book⟩, by simp, same.symm⟩
        · exact .inr held
      · rintro (⟨entry, member, same⟩ | held)
        · rcases List.mem_cons.mp member with rfl | later
          · exact .inr (.inl same.symm)
          · exact .inl ⟨entry, later, same⟩
        · exact .inr (.inr held)

theorem part_cleared (engine cleared : MatchingEngine) (books : cleared.books = ∅)
    (index : cleared.index = ∅) : Part engine cleared := by
  have nothing : ∀ symbol side, cleared.resting symbol side = [] := by
    intro symbol side
    cases side <;> simp [MatchingEngine.resting, MatchingEngine.levels, MatchingEngine.bookFor, books,
      Book.side]
  have levels : ∀ symbol side, cleared.levels symbol side = ∅ := by
    intro symbol side
    cases side <;> simp [MatchingEngine.levels, MatchingEngine.bookFor, books, Book.side]
  constructor
  · constructor
    · intro symbol side
      rw [levels]
      exact PriceLevels.sideWellFormed_empty symbol side
    · simp [nothing]
    · simp [index]
    · simp [nothing]
    · simp [nothing]
  · intro symbol side order member
    simp [nothing] at member
  · simp [nothing]

/-- A snapshot loads, whatever the order of its books, and into a twin of the
engine it was taken of. -/
theorem listing_restores (wf : WellFormed engine) (indexed : Indexed engine) {snap : Json}
    (taken : engine.IsSnapshot snap) (target : MatchingEngine) :
    ∃ restored, target.loadSnapshot snap = .ok restored ∧ WellFormed restored ∧ Twins restored engine := by
  obtain ⟨entries, all, rfl⟩ := taken
  let cleared : MatchingEngine := { target with
    books := ∅
    index := ∅
    sequence := (Int64.ofInt engine.sequence).toInt }
  have empty : ∀ symbol side, cleared.resting symbol side = [] := by
    intro symbol side
    cases side <;> simp [cleared, MatchingEngine.resting, MatchingEngine.levels, MatchingEngine.bookFor,
      Book.side]
  obtain ⟨restored, ran, whole, views, others, books⟩ := restoreBooks_part wf indexed
    ((List.perm_nodupKeys all).mpr engine.books.nodupKeys)
    (fun entry member => AList.mem_lookup_iff.mpr (all.subset member)) (part_cleared engine cleared rfl rfl)
    (fun entry _ side => empty entry.1 side)
  have listed : ∀ symbol, symbol ∈ restored.books ↔ symbol ∈ engine.books := by
    intro symbol
    rw [books]
    simp only [cleared, AList.notMem_empty, or_false]
    constructor
    · rintro ⟨entry, member, rfl⟩
      exact List.mem_keys_of_mem (all.subset member)
    · intro member
      obtain ⟨book, stored⟩ := List.exists_of_mem_keys member
      exact ⟨⟨symbol, book⟩, all.symm.subset stored, rfl⟩
  refine ⟨restored, ran, whole.wellFormed, ?_⟩
  refine twins_of_indexed whole.wellFormed wf whole.indexed indexed listed fun symbol side => ?_
  by_cases held : ∃ entry ∈ entries, entry.1 = symbol
  · obtain ⟨entry, member, rfl⟩ := held
    exact views entry member side
  · have absent : engine.resting symbol side = [] := by
      have missing : engine.books.lookup symbol = none := by
        rw [AList.lookup_eq_none]
        intro member
        obtain ⟨book, stored⟩ := List.exists_of_mem_keys member
        exact held ⟨⟨symbol, book⟩, all.symm.subset stored, rfl⟩
      cases side <;> simp [MatchingEngine.resting, MatchingEngine.levels, MatchingEngine.bookFor, missing,
        Book.side]
    rw [others symbol side (fun entry member same => held ⟨entry, member, same⟩), empty, absent]

theorem snapshot_restores (wf : WellFormed engine) (indexed : Indexed engine) (target : MatchingEngine) :
    ∃ restored, target.loadSnapshot engine.snapshot = .ok restored ∧
      WellFormed restored ∧ Twins restored engine :=
  listing_restores wf indexed engine.isSnapshot_snapshot target

/-! ## The counter -/

theorem foldl_sequence {α : Type} {f : MatchingEngine → α → MatchingEngine}
    (same : ∀ engine item, (f engine item).sequence = engine.sequence) (items : List α) (engine : MatchingEngine) :
    (items.foldl f engine).sequence = engine.sequence := by
  induction items generalizing engine with
  | nil => rfl
  | cons item rest ih => rw [List.foldl_cons, ih, same]

theorem restoreOrder_sequence (symbol : Bytes) (side : Side) (price : Json) (engine : MatchingEngine) (order : Json) :
    (restoreOrder symbol side price engine order).sequence = engine.sequence := by
  unfold restoreOrder
  split <;> rfl

theorem restoreLevel_sequence (symbol : Bytes) (side : Side) (engine : MatchingEngine) (level : Json) :
    (restoreLevel symbol side engine level).sequence = engine.sequence := by
  unfold restoreLevel
  split
  · exact foldl_sequence (restoreOrder_sequence symbol side _) _ engine
  · rfl

theorem restoreSide_sequence (engine : MatchingEngine) (symbol : Bytes) (levels : Json) (side : Side) :
    (engine.restoreSide symbol levels side).sequence = engine.sequence := by
  unfold restoreSide
  split
  · exact foldl_sequence (restoreLevel_sequence symbol side) _ _
  · rfl

theorem restoreBook_sequence {entry : Bytes × Json} {restored : MatchingEngine}
    (ran : engine.restoreBook entry = .ok restored) : restored.sequence = engine.sequence := by
  unfold restoreBook at ran
  split at ran
  · cases ran
    split <;> split <;> simp only [restoreSide_sequence]
  · cases ran

theorem restoreBooks_sequence {entries : List (Bytes × Json)} {restored : MatchingEngine}
    (ran : entries.foldlM restoreBook engine = .ok restored) : restored.sequence = engine.sequence := by
  induction entries generalizing engine with
  | nil =>
    cases ran
    rfl
  | cons entry rest ih =>
    rw [List.foldlM_cons] at ran
    cases first : engine.restoreBook entry with
    | error fault => simp [first, bind, Except.bind] at ran
    | ok next =>
      simp only [first, bind, Except.bind] at ran
      rw [ih ran, restoreBook_sequence first]

/-- A restored engine counts on from the word that was stored. -/
theorem listing_sequence {snap : Json} (taken : engine.IsSnapshot snap) {target restored : MatchingEngine}
    (ran : target.loadSnapshot snap = .ok restored) :
    restored.sequence = (Int64.ofInt engine.sequence).toInt := by
  obtain ⟨entries, -, rfl⟩ := taken
  have stored : (entries.map fun entry => (entry.1, bookJson entry.2)).foldlM restoreBook
      { target with books := ∅, index := ∅, sequence := (Int64.ofInt engine.sequence).toInt } =
        .ok restored := ran
  exact restoreBooks_sequence stored

end Exchange.SnapshotRestore
