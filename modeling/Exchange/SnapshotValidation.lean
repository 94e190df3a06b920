import Exchange.SnapshotRestore

/-! What `load_snapshot` accepts. It checks the shape of the document down to
the books and no further: every complete order it finds is rested as it is, at
any price, with any quantity and under any id, and none of the checks an `add`
makes is made here. The loaded books are sound exactly when the document
happens to list orders that a book could hold. -/
namespace Exchange

/-- The order a stored order describes, if none of its fields is missing. -/
def storedOrder (symbol : Bytes) (side : Side) (price : Json) (order : Json) : Option AddOrder :=
  match order.find (ascii "order_id"), order.find (ascii "participant_id"),
      order.find (ascii "remaining") with
  | some orderId, some participant, some remaining =>
    some (MatchingEngine.restoredOrder symbol side price orderId participant remaining)
  | _, _, _ => none

def storedLevel (symbol : Bytes) (side : Side) (level : Json) : List AddOrder :=
  match level.find (ascii "price_ticks"), level.find (ascii "orders") with
  | some price, some orders => orders.arrayValue.filterMap (storedOrder symbol side price)
  | _, _ => []

def storedSide (symbol : Bytes) (side : Side) : Option Json → List AddOrder
  | some levels => levels.arrayValue.flatMap (storedLevel symbol side)
  | none => []

def storedBook (entry : Bytes × Json) : List AddOrder :=
  storedSide entry.1 .buy (entry.2.find (ascii "bids")) ++ storedSide entry.1 .sell (entry.2.find (ascii "asks"))

/-- The orders a document lists, in the order of the document. -/
def storedOrders (snap : Json) : List AddOrder :=
  ((snap.find (ascii "books")).getD .null).objectValue.flatMap storedBook

/-- The document has books, and every one of them is an object. -/
def WellShaped (snap : Json) : Prop :=
  ∃ books, snap.find (ascii "books") = some books ∧ books.isObject = true ∧
    ∀ entry ∈ books.objectValue, entry.2.isObject = true

/-- Orders that can rest together: each with quantity, no bid at or above an
ask of its symbol. -/
structure Compatible (orders : List AddOrder) : Prop where
  positive : ∀ order ∈ orders, 0 < order.quantity
  apart : ∀ bid ∈ orders, ∀ ask ∈ orders, bid.side = .buy → ask.side = .sell → bid.symbol = ask.symbol →
    bid.priceTicks < ask.priceTicks

/-- What the engine promises of its books, and that it keeps working. -/
structure SoundBooks (engine : MatchingEngine) : Prop where
  uncrossed : ∀ symbol bid ask, engine.bestBid symbol = some bid → engine.bestAsk symbol = some ask → bid < ask
  remaining : ∀ order ∈ engine.orders, 0 < order.remaining
  once : (engine.orders.map fun order => order.orderId).Nodup
  indexed : ∀ order ∈ engine.orders, ∃ loc, engine.index.lookup order.orderId = some loc ∧
    engine.deref loc = .ok order
  /-- No later command throws. -/
  runs : ∀ commands, ∃ next outcomes, run MatchingEngine.apply engine commands = .ok (next, outcomes)

namespace SnapshotValidation
open EngineSteps EngineInvariant OrderIndex SnapshotRestore
open MatchingEngine (restoreOrder restoreLevel restoreSide restoreBook restoredOrder)

variable {engine : MatchingEngine} {done : List AddOrder} {symbol : Bytes} {side : Side}

/-! ## One more resting order, on any engine -/

/-- The orders of one book. -/
def bookOrders (book : Book) : List Node := queue .buy book.bids ++ queue .sell book.asks

/-- Writing a book exchanges its orders and keeps those of the others. -/
theorem orders_setBook (engine : MatchingEngine) (symbol : Bytes) :
    ∃ others, engine.orders.Perm (bookOrders (engine.bookFor symbol) ++ others) ∧
      ∀ book, (engine.setBook symbol book).orders.Perm (bookOrders book ++ others) := by
  refine ⟨(engine.books.entries.kerase symbol).flatMap fun entry => bookOrders entry.2, ?_, fun book => ?_⟩
  · by_cases held : symbol ∈ engine.books
    · obtain ⟨book, before, after, -, shape, erased⟩ := List.exists_of_kerase (AList.mem_keys.mp held)
      have found : engine.bookFor symbol = book := by
        have stored : (⟨symbol, book⟩ : Sigma fun _ : Bytes => Book) ∈ engine.books.entries := by simp [shape]
        simp [MatchingEngine.bookFor, Option.mem_def.mp (AList.mem_lookup_iff.mpr stored)]
      have whole : engine.orders = (engine.books.entries).flatMap fun entry => bookOrders entry.2 := rfl
      rw [whole, found, erased, shape]
      simp only [List.flatMap_append, List.flatMap_cons]
      exact List.perm_append_comm_assoc _ _ _
    · have missing : engine.books.lookup symbol = none := AList.lookup_eq_none.mpr held
      rw [List.kerase_of_notMem_keys (fun key => held (AList.mem_keys.mpr key))]
      simp only [MatchingEngine.bookFor, missing, Option.getD_none, bookOrders]
      simp [MatchingEngine.orders]
  · exact List.Perm.refl _

theorem queue_insert_perm (side : Side) (levels : BookSide) (price : Int64) (order : Node) :
    (queue side (levels.insert price ((levels.find price).getD [] ++ [order]))).Perm
      (order :: queue side levels) := by
  cases found : levels.find price with
  | none =>
    obtain ⟨ahead, behind, shape, inserted, -, -⟩ := PriceLevels.bestFirst_insert_absent side found [order]
    simp only [queue, Option.getD_none, List.nil_append, shape, inserted, List.flatMap_append, List.flatMap_cons]
    exact List.perm_middle
  | some level =>
    obtain ⟨ahead, behind, split⟩ := PriceLevels.bestFirst_of_find side found
    have inserted := PriceLevels.bestFirst_insert split (level ++ [order])
    have before := PriceLevels.queue_of_split split
    have after := PriceLevels.queue_of_split inserted
    rw [Option.getD_some, before, after, ← List.append_assoc, List.append_assoc _ [order]]
    exact List.perm_middle

theorem orders_restOrder (engine : MatchingEngine) (cmd : AddOrder) (remaining : Int64) :
    (engine.restOrder cmd remaining).orders.Perm (restingNode engine cmd remaining :: engine.orders) := by
  obtain ⟨others, before, after⟩ := orders_setBook engine cmd.symbol
  have written := after ((engine.bookFor cmd.symbol).setSide cmd.side
    (((engine.bookFor cmd.symbol).side cmd.side).insert cmd.priceTicks
      ((((engine.bookFor cmd.symbol).side cmd.side).find cmd.priceTicks).getD [] ++
        [restingNode engine cmd remaining])))
  refine written.trans (List.Perm.trans ?_ (before.symm.cons _))
  rw [← List.cons_append]
  apply List.Perm.append_right
  have inserted := queue_insert_perm cmd.side ((engine.bookFor cmd.symbol).side cmd.side) cmd.priceTicks
    (restingNode engine cmd remaining)
  cases side : cmd.side with
  | buy =>
    rw [side] at inserted
    exact inserted.append_right _
  | sell =>
    rw [side] at inserted
    exact (inserted.append_left _).trans List.perm_middle

/-- Every order is in the level of its own price, on its own side and symbol. -/
def Shelved (engine : MatchingEngine) : Prop :=
  ∀ symbol side, ∀ entry ∈ (engine.levels symbol side).entries, ∀ order ∈ entry.2,
    order.symbol = symbol ∧ order.side = side ∧ order.priceTicks = entry.1

theorem shelved_congr {next : MatchingEngine} (shelved : Shelved engine)
    (levels : ∀ symbol side, next.levels symbol side = engine.levels symbol side) : Shelved next := by
  intro symbol side
  rw [levels]
  exact shelved symbol side

theorem shelved_restOrder (shelved : Shelved engine) (cmd : AddOrder) (remaining : Int64) :
    Shelved (engine.restOrder cmd remaining) := by
  intro symbol side entry stored order member
  by_cases here : symbol = cmd.symbol ∧ side = cmd.side
  · obtain ⟨rfl, rfl⟩ := here
    rw [restOrder_levels] at stored
    rcases OrderedMap.mem_insert stored with rfl | old
    · rcases List.mem_append.mp member with older | new
      · cases found : (engine.levels cmd.symbol cmd.side).find cmd.priceTicks with
        | none => simp [found] at older
        | some level =>
          rw [found] at older
          exact shelved _ _ (cmd.priceTicks, level) (OrderedMap.find_eq_some_iff.mp found) order older
      · rw [List.mem_singleton.mp new]
        exact ⟨rfl, rfl, rfl⟩
    · exact shelved _ _ entry old order member
  · have same : (engine.restOrder cmd remaining).levels symbol side = engine.levels symbol side :=
      levels_setSide_ne engine _ (by tauto)
    rw [same] at stored
    exact shelved symbol side entry stored order member

/-! ## Loading -/

/-- The engine while the document is read: it holds the orders read so far,
and it is sound if these are. -/
structure Loading (done : List AddOrder) (engine : MatchingEngine) : Prop where
  shelved : Shelved engine
  orders : (engine.orders.map restCommand).Perm done
  wellFormed : Compatible done → WellFormed engine
  indexed : Compatible done → (done.map fun order => order.orderId).Nodup → Indexed engine

theorem loading_cleared (engine : MatchingEngine) (books : engine.books = ∅) (index : engine.index = ∅) :
    Loading [] engine := by
  have part := part_cleared engine engine books index
  refine ⟨?_, ?_, fun _ => part.wellFormed, fun _ _ => part.indexed⟩
  · intro symbol side entry stored
    cases side <;> simp [MatchingEngine.levels, MatchingEngine.bookFor, books, Book.side] at stored
  · simp [MatchingEngine.orders, books]

theorem loading_open (loading : Loading done engine) (symbol : Bytes) :
    Loading done (engine.setBook symbol (engine.bookFor symbol)) := by
  have levels := levels_open engine symbol
  obtain ⟨others, before, after⟩ := orders_setBook engine symbol
  refine ⟨shelved_congr loading.shelved levels, ?_, ?_, ?_⟩
  · exact (((after _).trans before.symm).map restCommand).trans loading.orders
  · exact fun compatible => wellFormed_congr (loading.wellFormed compatible) levels rfl rfl
  · exact fun compatible once => indexed_congr (loading.indexed compatible once) levels rfl

theorem compatible_front {orders more : List AddOrder} (compatible : Compatible (orders ++ more)) :
    Compatible orders where
  positive order member := compatible.positive order (List.mem_append_left _ member)
  apart bid bidIn ask askIn :=
    compatible.apart bid (List.mem_append_left _ bidIn) ask (List.mem_append_left _ askIn)

/-- A resting order of the engine is one that was read. -/
theorem read_of_resting (loading : Loading done engine) {order : Node} (member : order ∈ engine.resting symbol side) :
    restCommand order ∈ done :=
  loading.orders.subset (List.mem_map_of_mem (mem_orders.mpr ⟨symbol, side, member⟩))

/-- One more order, rested as the document says. -/
theorem loading_restOrder (loading : Loading done engine) {cmd : AddOrder}
    (plain : restCommand (restingNode engine cmd cmd.quantity) = cmd) :
    Loading (done ++ [cmd]) (engine.restOrder cmd cmd.quantity) := by
  have grown : ((engine.restOrder cmd cmd.quantity).orders.map restCommand).Perm (done ++ [cmd]) := by
    have added := (orders_restOrder engine cmd cmd.quantity).map restCommand
    rw [List.map_cons, plain] at added
    exact added.trans ((loading.orders.cons cmd).trans (List.perm_append_singleton cmd done).symm)
  have insertion : Compatible (done ++ [cmd]) → Inserted engine (restingNode engine cmd cmd.quantity)
      (engine.restOrder cmd cmd.quantity) := fun compatible =>
    restOrder_inserted ((loading.wellFormed (compatible_front compatible)).sides cmd.symbol cmd.side)
      (compatible.positive cmd (by simp))
  refine ⟨shelved_restOrder loading.shelved cmd _, grown, fun compatible => ?_, fun compatible once => ?_⟩
  · have wf := loading.wellFormed (compatible_front compatible)
    refine inserted_wellFormed wf (insertion compatible) rfl rfl rfl fun facing member => ?_
    change facing ∈ engine.resting cmd.symbol (opposite cmd.side) at member
    have placed := (PriceLevels.level_of_mem_queue (wf.sides _ _) member).1
    have read := List.mem_append_left [cmd] (read_of_resting loading member)
    change beyond (opposite cmd.side) cmd.priceTicks facing.priceTicks = true
    cases which : cmd.side with
    | buy =>
      have selling : facing.side = .sell := by rw [placed.side, which]; rfl
      have less := compatible.apart cmd (by simp) _ read which selling placed.symbol.symm
      simpa [opposite, beyond, restCommand] using less
    | sell =>
      have buying : facing.side = .buy := by rw [placed.side, which]; rfl
      have less := compatible.apart _ read cmd (by simp) buying which placed.symbol
      simpa [opposite, beyond, restCommand] using less
  · rw [List.map_append, List.nodup_append] at once
    have indexed := loading.indexed (compatible_front compatible) once.1
    refine inserted_indexed indexed (insertion compatible) rfl fun symbol side held member same => ?_
    have read := List.mem_map_of_mem (f := fun order : AddOrder => order.orderId) (read_of_resting loading member)
    exact once.2.2 _ read cmd.orderId (by simp) same

theorem loading_foldl {α : Type} {step : MatchingEngine → α → MatchingEngine} {orders : α → List AddOrder}
    (one : ∀ done engine item, Loading done engine → Loading (done ++ orders item) (step engine item))
    (items : List α) (loading : Loading done engine) :
    Loading (done ++ items.flatMap orders) (items.foldl step engine) := by
  induction items generalizing done engine with
  | nil => simpa using loading
  | cons item items ih =>
    have later := ih (one done engine item loading)
    rw [List.append_assoc] at later
    exact later

theorem loading_restoreOrder (price : Json) (loading : Loading done engine) (order : Json) :
    Loading (done ++ (storedOrder symbol side price order).toList) (restoreOrder symbol side price engine order) := by
  unfold storedOrder restoreOrder
  cases order.find (ascii "order_id") with
  | none => simpa using loading
  | some orderId =>
    cases order.find (ascii "participant_id") with
    | none => simpa using loading
    | some participant =>
      cases order.find (ascii "remaining") with
      | none => simpa using loading
      | some remaining =>
        have plain : restCommand (restingNode engine (restoredOrder symbol side price orderId participant remaining)
            remaining.asInt) = restoredOrder symbol side price orderId participant remaining := rfl
        exact loading_restOrder loading plain

theorem loading_restoreLevel (loading : Loading done engine) (level : Json) :
    Loading (done ++ storedLevel symbol side level) (restoreLevel symbol side engine level) := by
  unfold storedLevel restoreLevel
  cases level.find (ascii "price_ticks") with
  | none => simpa using loading
  | some price =>
    cases level.find (ascii "orders") with
    | none => simpa using loading
    | some orders =>
      simp only [List.filterMap_eq_flatMap_toList]
      exact loading_foldl (fun _ _ order loading => loading_restoreOrder price loading order) _ loading

theorem loading_restoreSide (loading : Loading done engine) (levels : Json) :
    Loading (done ++ storedSide symbol side (some levels)) (engine.restoreSide symbol levels side) := by
  unfold restoreSide
  split
  · exact loading_foldl (fun _ _ level loading => loading_restoreLevel loading level) _
      (loading_open loading symbol)
  · rename_i other
    have nothing : levels.arrayValue = [] := by
      cases levels <;> first | rfl | simp [Json.isArray] at other
    simpa [storedSide, nothing] using loading

theorem loading_restoreBook (loading : Loading done engine) {entry : Bytes × Json}
    (object : entry.2.isObject = true) :
    ∃ next, restoreBook engine entry = .ok next ∧ Loading (done ++ storedBook entry) next := by
  refine ⟨_, by rw [restoreBook, if_pos object], ?_⟩
  rw [storedBook, ← List.append_assoc]
  have half : Loading (done ++ storedSide entry.1 .buy (entry.2.find (ascii "bids")))
      (match entry.2.find (ascii "bids") with
        | some bids => engine.restoreSide entry.1 bids .buy
        | none => engine) := by
    cases entry.2.find (ascii "bids") with
    | none => simpa [storedSide] using loading
    | some bids => exact loading_restoreSide loading bids
  cases entry.2.find (ascii "asks") with
  | none =>
    change Loading (_ ++ []) _
    rw [List.append_nil]
    exact half
  | some asks => exact loading_restoreSide half asks

theorem loading_restoreBooks {entries : List (Bytes × Json)}
    (objects : ∀ entry ∈ entries, entry.2.isObject = true) (loading : Loading done engine) :
    ∃ next, entries.foldlM restoreBook engine = .ok next ∧ Loading (done ++ entries.flatMap storedBook) next := by
  induction entries generalizing done engine with
  | nil => exact ⟨engine, rfl, by simpa using loading⟩
  | cons entry entries ih =>
    obtain ⟨mid, ran, half⟩ := loading_restoreBook loading (objects entry (by simp))
    obtain ⟨next, ranRest, whole⟩ := ih (fun other member => objects other (List.mem_cons_of_mem _ member)) half
    refine ⟨next, ?_, ?_⟩
    · rw [List.foldlM_cons, ran]
      exact ranRest
    · rw [List.append_assoc] at whole
      exact whole

/-- A book that is not an object ends the loading with an error. -/
theorem restoreBooks_error {entries : List (Bytes × Json)}
    (odd : ∃ entry ∈ entries, entry.2.isObject = false) (engine : MatchingEngine) :
    ∃ message, entries.foldlM restoreBook engine = .error (.matchingEngineError message) := by
  induction entries generalizing engine with
  | nil => simp at odd
  | cons entry entries ih =>
    rw [List.foldlM_cons]
    cases object : entry.2.isObject with
    | false => exact ⟨_, by rw [restoreBook, object]; rfl⟩
    | true =>
      obtain ⟨other, member, fails⟩ := odd
      have later : other ∈ entries := by
        rcases List.mem_cons.mp member with rfl | later
        · rw [object] at fails
          cases fails
        · exact later
      rw [restoreBook, if_pos object]
      exact ih ⟨other, later, fails⟩ _

/-- A well-shaped document loads, and what it loads is what it lists. -/
theorem loads_of_wellShaped {snap : Json} (shaped : WellShaped snap) (engine : MatchingEngine) :
    ∃ loaded, engine.loadSnapshot snap = .ok loaded ∧ Loading (storedOrders snap) loaded := by
  obtain ⟨books, found, object, objects⟩ := shaped
  rw [MatchingEngine.loadSnapshot, storedOrders, found]
  simp only [object, ↓reduceIte, Option.getD_some]
  exact loading_restoreBooks objects (loading_cleared _ rfl rfl)

/-- Any other document is refused. -/
theorem throws_of_misshapen {snap : Json} (misshapen : ¬ WellShaped snap) (engine : MatchingEngine) :
    ∃ message, engine.loadSnapshot snap = .error (.matchingEngineError message) := by
  rw [MatchingEngine.loadSnapshot]
  cases found : snap.find (ascii "books") with
  | none => exact ⟨_, rfl⟩
  | some books =>
    cases object : books.isObject with
    | false => exact ⟨_, by simp [object]; rfl⟩
    | true =>
      simp only [object, ↓reduceIte]
      refine restoreBooks_error ?_ _
      by_contra all
      refine misshapen ⟨books, found, object, fun entry member => ?_⟩
      by_contra odd
      exact all ⟨entry, member, by simpa using odd⟩

/-! ## What was loaded -/

/-- An engine with both invariants keeps its promises. -/
theorem soundBooks (wf : WellFormed engine) (indexed : Indexed engine)
    (once : (engine.orders.map fun order => order.orderId).Nodup) : SoundBooks engine where
  uncrossed symbol bid ask bestBid bestAsk := by
    obtain ⟨book, stored, found⟩ := Option.bind_eq_some_iff.mp bestBid
    obtain ⟨⟨_, bids⟩, bidFront, rfl⟩ := Option.map_eq_some_iff.mp found
    rw [MatchingEngine.bestAsk, stored] at bestAsk
    obtain ⟨⟨_, asks⟩, askFront, rfl⟩ := Option.map_eq_some_iff.mp bestAsk
    exact (booksWellFormed wf).uncrossed symbol book stored _ bids _ asks bidFront askFront
  remaining order member := by
    obtain ⟨symbol, side, held⟩ := mem_orders.mp member
    exact (PriceLevels.level_of_mem_queue (wf.sides symbol side) held).1.remaining
  once := once
  indexed order member := by
    obtain ⟨symbol, side, held⟩ := mem_orders.mp member
    have entry := indexed symbol side order held
    obtain ⟨reached, derefs, inside, addr, -, -⟩ := deref_ok wf entry
    have same : reached = order := List.inj_on_of_nodup_map (wf.distinct symbol side) inside held addr
    exact ⟨_, entry, by rw [derefs, same]⟩
  runs commands := by
    obtain ⟨next, outcomes, ran, -⟩ := Runs.run_invariant (fun _ _ => True) WellFormed
      (fun _ command wf _ => apply_wellFormed wf command) wf (Runs.meets_of_forall (fun _ _ => trivial) commands)
    exact ⟨next, outcomes, ran⟩

/-- The best price of a side is at least as good as any price on it. -/
theorem best_not_beyond (side : Side) {levels : BookSide} {entry : Int64 × Level} (stored : entry ∈ levels.entries) :
    ∃ price level, bestLevel side levels = some (price, level) ∧ beyond side entry.1 price = false := by
  rw [PriceLevels.bestLevel_eq_head]
  have sorted := PriceLevels.bestFirst_sorted side levels
  have member : entry ∈ bestFirst side levels := PriceLevels.mem_bestFirst.mpr stored
  cases shape : bestFirst side levels with
  | nil =>
    rw [shape] at member
    cases member
  | cons best others =>
    refine ⟨best.1, best.2, rfl, ?_⟩
    rw [shape] at member sorted
    rcases List.mem_cons.mp member with rfl | behind
    · simp
    · exact PriceLevels.beyond_asymm ((List.pairwise_cons.mp sorted).1 entry behind)

/-- Every order that was read rests in the level of its price. -/
theorem level_of_read (loading : Loading done engine) {cmd : AddOrder} (read : cmd ∈ done) :
    ∃ book level, engine.books.lookup cmd.symbol = some book ∧
      (cmd.priceTicks, level) ∈ (book.side cmd.side).entries := by
  obtain ⟨order, member, rfl⟩ := List.mem_map.mp (loading.orders.symm.subset read)
  obtain ⟨symbol, side, held⟩ := mem_orders.mp member
  obtain ⟨price, level, found, inside⟩ := PriceLevels.mem_queue.mp held
  have stored := OrderedMap.find_eq_some_iff.mp found
  obtain ⟨rfl, rfl, price_⟩ := loading.shelved symbol side (price, level) stored order inside
  change order.priceTicks = price at price_
  cases listed : engine.books.lookup order.symbol with
  | none =>
    cases which : order.side <;>
      simp [MatchingEngine.levels, MatchingEngine.bookFor, listed, Book.side, which] at stored
  | some book =>
    refine ⟨book, level, listed, ?_⟩
    simpa [MatchingEngine.levels, MatchingEngine.bookFor, listed, price_, restCommand] using stored

theorem compatible_of_sound (loading : Loading done engine) (sound : SoundBooks engine) : Compatible done where
  positive cmd read := by
    obtain ⟨order, member, rfl⟩ := List.mem_map.mp (loading.orders.symm.subset read)
    exact sound.remaining order member
  apart bid bidRead ask askRead buying selling same := by
    obtain ⟨book, bids, listed, bidLevel⟩ := level_of_read loading bidRead
    obtain ⟨book', asks, listed', askLevel⟩ := level_of_read loading askRead
    rw [same, listed', Option.some.injEq] at listed
    subst listed
    rw [buying] at bidLevel
    rw [selling] at askLevel
    obtain ⟨bestBid, _, bidFront, bidBound⟩ := best_not_beyond .buy bidLevel
    obtain ⟨bestAsk, _, askFront, askBound⟩ := best_not_beyond .sell askLevel
    have less := sound.uncrossed ask.symbol bestBid bestAsk
      (by rw [MatchingEngine.bestBid, listed']; exact congrArg (Option.map Prod.fst) bidFront)
      (by rw [MatchingEngine.bestAsk, listed']; exact congrArg (Option.map Prod.fst) askFront)
    simp only [beyond, decide_eq_false_iff_not, not_lt] at bidBound askBound
    exact lt_of_le_of_lt bidBound (lt_of_lt_of_le less askBound)

/-- Loading any document into any engine throws or leaves sound books exactly
when the document is misshapen, or lists orders with quantity, under distinct
ids, that do not cross. -/
theorem load_throws_or_sound_iff (engine : MatchingEngine) (snap : Json) :
    ((∃ message, engine.loadSnapshot snap = .error (.matchingEngineError message)) ∨
        ∃ loaded, engine.loadSnapshot snap = .ok loaded ∧ SoundBooks loaded) ↔
      ¬ WellShaped snap ∨ (Compatible (storedOrders snap) ∧
        ((storedOrders snap).map fun order => order.orderId).Nodup) := by
  by_cases shaped : WellShaped snap
  · obtain ⟨loaded, ran, loading⟩ := loads_of_wellShaped shaped engine
    have ids : (loaded.orders.map fun order => order.orderId).Perm
        ((storedOrders snap).map fun order => order.orderId) := by
      have named := loading.orders.map fun order => order.orderId
      rw [List.map_map] at named
      exact named
    simp only [ran, shaped, not_true_eq_false, false_or, reduceCtorEq, exists_false, Except.ok.injEq]
    constructor
    · rintro ⟨_, rfl, sound⟩
      exact ⟨compatible_of_sound loading sound, ids.nodup_iff.mp sound.once⟩
    · rintro ⟨compatible, once⟩
      exact ⟨loaded, rfl, soundBooks (loading.wellFormed compatible) (loading.indexed compatible once)
        (ids.nodup_iff.mpr once)⟩
  · exact iff_of_true (Or.inl (throws_of_misshapen shaped engine)) (Or.inl shaped)

/-- A document with a bid above an ask. -/
def crossedSnapshot : Json :=
  let side (orderId price : Int64) : Json := .array [.object [(ascii "price_ticks", .int price),
    (ascii "orders", .array [.object [(ascii "order_id", .int orderId), (ascii "participant_id", .string (ascii "A")),
      (ascii "remaining", .int 5)]])]]
  .object [(ascii "sequence", .int 2), (ascii "books", .object [(ascii "S",
    .object [(ascii "bids", side 1 101), (ascii "asks", side 2 100)])])]

/-- It loads without an error and leaves a crossed book. -/
theorem crossed_snapshot_loads :
    ¬ ∀ (engine : MatchingEngine) (snap : Json),
      (∃ message, engine.loadSnapshot snap = .error (.matchingEngineError message)) ∨
        ∃ loaded, engine.loadSnapshot snap = .ok loaded ∧ SoundBooks loaded := by
  intro always
  have prices : (MatchingEngine.loadSnapshot {} crossedSnapshot).map
      (fun loaded => (loaded.bestBid (ascii "S"), loaded.bestAsk (ascii "S"))) =
      .ok (some 101, some 100) := by decide
  rcases always {} crossedSnapshot with ⟨message, failed⟩ | ⟨loaded, ran, sound⟩
  · rw [failed] at prices
    cases prices
  · rw [ran] at prices
    have both := Prod.mk.inj (Except.ok.inj prices)
    exact absurd (sound.uncrossed _ _ _ both.1 both.2) (by decide)

/-! ## The engine's own documents -/

theorem storedLevel_levelJson {entry : Int64 × Level}
    (placed : ∀ order ∈ entry.2, Placed symbol side entry.1 order) :
    storedLevel symbol side (MatchingEngine.levelJson entry) = entry.2.map restCommand := by
  have shape : storedLevel symbol side (MatchingEngine.levelJson entry) =
      (entry.2.map fun order => MatchingEngine.orderJson order.toRestingOrder).filterMap
        (storedOrder symbol side (.int entry.1)) := rfl
  have one : ∀ order ∈ entry.2, storedOrder symbol side (.int entry.1)
      (MatchingEngine.orderJson order.toRestingOrder) = some (restCommand order) := by
    intro order member
    obtain ⟨rfl, rfl, price, -⟩ := placed order member
    rw [← price]
    rfl
  rw [shape, List.filterMap_map, ← List.filterMap_eq_map]
  exact List.filterMap_congr one

theorem storedSide_serializeSide {book : Book} (wf : SideWellFormed symbol side (book.side side)) :
    storedSide symbol side (some (MatchingEngine.serializeSide book side)) =
      (queue side (book.side side)).map restCommand := by
  have shape : storedSide symbol side (some (MatchingEngine.serializeSide book side)) =
      ((bestFirst side (book.side side)).map MatchingEngine.levelJson).flatMap (storedLevel symbol side) := rfl
  rw [shape, List.flatMap_map, queue, List.map_flatMap]
  exact List.flatMap_congr fun entry member =>
    storedLevel_levelJson (PriceLevels.bestFirst_wellFormed wf entry member).2

/-- A snapshot lists the resting orders, book by book. -/
theorem storedOrders_listing (wf : WellFormed engine) {books : List (Sigma fun _ : Bytes => Book)}
    (all : books.Perm engine.books.entries) :
    (storedOrders (engine.snapshotListing books)).Perm (engine.orders.map restCommand) := by
  have shape : storedOrders (engine.snapshotListing books) =
      (books.map fun entry => (entry.1, MatchingEngine.bookJson entry.2)).flatMap storedBook := rfl
  rw [shape, List.flatMap_map, MatchingEngine.orders, List.map_flatMap]
  refine (List.Perm.of_eq (List.flatMap_congr fun entry member => ?_)).trans (all.flatMap_right _)
  have stored : engine.bookFor entry.1 = entry.2 := by
    simp [MatchingEngine.bookFor, Option.mem_def.mp (AList.mem_lookup_iff.mpr (all.subset member))]
  have sides : ∀ side, SideWellFormed entry.1 side (entry.2.side side) := by
    intro side
    rw [← stored]
    exact wf.sides entry.1 side
  have both : storedBook (entry.1, MatchingEngine.bookJson entry.2) =
      storedSide entry.1 .buy (some (MatchingEngine.serializeSide entry.2 .buy)) ++
        storedSide entry.1 .sell (some (MatchingEngine.serializeSide entry.2 .sell)) := rfl
  rw [both, storedSide_serializeSide (sides .buy), storedSide_serializeSide (sides .sell), List.map_append]
  rfl

/-- The resting orders of a well-formed engine can rest together. -/
theorem compatible_orders (wf : WellFormed engine) : Compatible (engine.orders.map restCommand) where
  positive cmd listed := by
    obtain ⟨order, member, rfl⟩ := List.mem_map.mp listed
    obtain ⟨symbol, side, held⟩ := mem_orders.mp member
    exact (PriceLevels.level_of_mem_queue (wf.sides symbol side) held).1.remaining
  apart bid bidListed ask askListed buying selling same := by
    obtain ⟨bidOrder, bidMember, rfl⟩ := List.mem_map.mp bidListed
    obtain ⟨askOrder, askMember, rfl⟩ := List.mem_map.mp askListed
    obtain ⟨bidSymbol, bidSide, bidHeld⟩ := mem_orders.mp bidMember
    obtain ⟨askSymbol, askSide, askHeld⟩ := mem_orders.mp askMember
    have bidPlaced := (PriceLevels.level_of_mem_queue (wf.sides bidSymbol bidSide) bidHeld).1
    have askPlaced := (PriceLevels.level_of_mem_queue (wf.sides askSymbol askSide) askHeld).1
    change bidOrder.side = .buy at buying
    change askOrder.side = .sell at selling
    change bidOrder.symbol = askOrder.symbol at same
    rw [← bidPlaced.side, buying, ← bidPlaced.symbol, same] at bidHeld
    rw [← askPlaced.side, selling, ← askPlaced.symbol] at askHeld
    exact wf.uncrossed askOrder.symbol bidOrder bidHeld askOrder askHeld

/-- Orders can rest together in whatever order they are listed. -/
theorem compatible_perm {orders others : List AddOrder} (same : orders.Perm others) (compatible : Compatible others) :
    Compatible orders where
  positive order listed := compatible.positive order (same.subset listed)
  apart bid bidListed ask askListed :=
    compatible.apart bid (same.subset bidListed) ask (same.subset askListed)

/-- A snapshot of a well-formed engine, whatever ids repeat in it and whatever
the order of its books, loads into a well-formed one. -/
theorem listing_loads (wf : WellFormed engine) {snap : Json} (taken : engine.IsSnapshot snap)
    (target : MatchingEngine) : ∃ loaded, target.loadSnapshot snap = .ok loaded ∧ WellFormed loaded := by
  obtain ⟨books, all, rfl⟩ := taken
  have shaped : WellShaped (engine.snapshotListing books) := by
    refine ⟨_, rfl, rfl, fun entry member => ?_⟩
    obtain ⟨stored, -, rfl⟩ := List.mem_map.mp member
    rfl
  obtain ⟨loaded, ran, loading⟩ := loads_of_wellShaped shaped target
  exact ⟨loaded, ran, loading.wellFormed (compatible_perm (storedOrders_listing wf all) (compatible_orders wf))⟩

end SnapshotValidation
end Exchange
