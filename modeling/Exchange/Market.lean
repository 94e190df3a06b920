import Exchange.OrderIndex
import Exchange.SymbolIsolation
import Exchange.Twins

/-! The market an engine makes, without the engine: for each symbol the orders
of its two sides, best first, and what a command does to the book of its own
symbol. There is no index, no address, no counter and no other symbol here. An
engine whose index knows every resting order, given commands that name the
symbol of the order they are about, makes this market. -/
namespace Exchange

/-- A book as its participants see it: the orders of each side, best first. -/
abbrev BookView := Side → List OrderView

/-- The books by symbol; a symbol that was never traded has none. -/
abbrev Market := Bytes → Option BookView

/-- What a command is answered with, its symbol and its numbers left out. -/
structure Answer where
  reports : List (EventType × Payload)
  trades : List Trade := []

/-- An order as the walk meets it. It looks at nothing an order does not show. -/
def OrderView.node (order : OrderView) : Node where
  symbol := order.symbol
  orderId := order.orderId
  participantId := order.participantId
  side := order.side
  priceTicks := order.priceTicks
  remaining := order.remaining
  enteredSequence := 0
  addr := 0

namespace Market

/-- The book of a symbol; one that is not there is empty. -/
def book (market : Market) (symbol : Bytes) : BookView := (market symbol).getD fun _ => []

def setBook (market : Market) (symbol : Bytes) (book : BookView) : Market :=
  fun other => if other = symbol then some book else market other

/-- The volume within a limit. -/
def offeredVolume (book : BookView) (side : Side) (limitPrice : Int64) : Int64 :=
  ((book side).takeWhile fun order => !beyond side limitPrice order.priceTicks).foldl
    (fun total order => total + order.remaining) 0

/-- The order behind everything that is not worse. -/
def queued (orders : List OrderView) (order : OrderView) : List OrderView :=
  orders.takeWhile (fun other => !beyond order.side order.priceTicks other.priceTicks) ++
    order :: orders.dropWhile (fun other => !beyond order.side order.priceTicks other.priceTicks)

/-- The remainder of an add as an order. -/
def remainder (cmd : AddOrder) (remaining : Int64) : OrderView where
  symbol := cmd.symbol
  orderId := cmd.orderId
  participantId := cmd.participantId
  side := cmd.side
  priceTicks := cmd.priceTicks
  remaining := remaining

/-- The order walks the other side, and a remainder may come to rest on its own. -/
def enter (book : BookView) (cmd : AddOrder) : BookView × Answer :=
  if cmd.timeInForce = .fok ∧ offeredVolume book (opposite cmd.side) cmd.priceTicks < cmd.quantity then
    (book, ⟨[(.rejected, [(.orderId, .int cmd.orderId), (.reason, .str (ascii "FOK_UNFILLABLE"))])], []⟩)
  else
    let walked := walk cmd cmd.quantity ((book (opposite cmd.side)).map OrderView.node)
    (fun side =>
        if side = opposite cmd.side then walked.rest.map Node.view
        else if rests cmd walked.remaining then queued (book side) (remainder cmd walked.remaining)
        else book side,
      ⟨addReports cmd walked, walked.steps.filterMap (Step.trade cmd)⟩)

/-- The order of the book under this id. -/
def orderUnder (book : BookView) (orderId : Int64) : Option OrderView :=
  (book .buy ++ book .sell).find? fun order => order.orderId = orderId

def without (book : BookView) (orderId : Int64) : BookView :=
  fun side => (book side).filter fun order => order.orderId ≠ orderId

def unknownOrder (orderId : Int64) : Answer :=
  ⟨[(.rejected, [(.orderId, .int orderId), (.reason, .str (ascii "UNKNOWN_ORDER"))])], []⟩

def cancelled (order : OrderView) : EventType × Payload :=
  (.cancelled, [(.orderId, .int order.orderId), (.remaining, .int order.remaining)])

/-- One command, on the book of its symbol. -/
def apply (market : Market) : Command → Market × Answer
  | .add cmd =>
    let (book, answer) := enter (market.book cmd.symbol) cmd
    (market.setBook cmd.symbol book, answer)
  | .cancel cmd =>
    match orderUnder (market.book cmd.symbol) cmd.orderId with
    | none => (market, unknownOrder cmd.orderId)
    | some order =>
      (market.setBook cmd.symbol (without (market.book cmd.symbol) cmd.orderId), ⟨[cancelled order], []⟩)
  | .replace cmd =>
    match orderUnder (market.book cmd.symbol) cmd.orderId with
    | none => (market, unknownOrder cmd.orderId)
    | some order =>
      let (book, answer) := enter (without (market.book cmd.symbol) cmd.orderId)
        (MatchingEngine.replacementOrder cmd order.participantId order.side)
      (market.setBook cmd.symbol book, ⟨cancelled order :: answer.reports, answer.trades⟩)

end Market

/-- The market an engine shows. -/
def MatchingEngine.shown (engine : MatchingEngine) : Market := fun symbol =>
  (engine.books.lookup symbol).map fun book side => (queue side (book.side side)).map Node.view

/-- An outcome with its numbers left out is this answer on this symbol. -/
structure Answers (outcome : Outcome) (symbol : Bytes) (answer : Answer) : Prop where
  events : outcome.events.map Twins.said = answer.reports.map fun report => (report.1, symbol, report.2)
  trades : outcome.trades = answer.trades

namespace Market
open EngineSteps EngineInvariant OrderIndex Twins
variable {engine next : MatchingEngine} {cmd : AddOrder} {symbol : Bytes} {side : Side}

theorem book_shown (engine : MatchingEngine) (symbol : Bytes) (side : Side) :
    engine.shown.book symbol side = (engine.resting symbol side).map Node.view := by
  unfold Market.book MatchingEngine.shown MatchingEngine.resting MatchingEngine.levels MatchingEngine.bookFor
  cases engine.books.lookup symbol with
  | none => cases side <;> simp [Book.side]
  | some book => rfl

/-- Engines that differ in one book show markets that differ in one book. -/
theorem shown_setBook {book : BookView} (opened : symbol ∈ next.books)
    (books : ∀ other, other ≠ symbol → next.books.lookup other = engine.books.lookup other)
    (views : ∀ side, (next.resting symbol side).map Node.view = book side) :
    next.shown = engine.shown.setBook symbol book := by
  funext other
  by_cases here : other = symbol
  · subst here
    obtain ⟨stored, found⟩ := Option.isSome_iff_exists.mp (AList.lookup_isSome.mpr opened)
    have same : next.shown other = some (next.shown.book other) := by
      simp [Market.book, MatchingEngine.shown, found]
    rw [same, setBook, if_pos rfl]
    congr 1
    funext side
    rw [book_shown, views]
  · rw [setBook, if_neg here, MatchingEngine.shown, MatchingEngine.shown, books other here]

/-- A walk over views is a walk over the orders that show them. -/
theorem walk_views (cmd : AddOrder) (remaining : Int64) (queue : List Node) :
    let seen := walk cmd remaining ((queue.map Node.view).map OrderView.node)
    (walk cmd remaining queue).remaining = seen.remaining ∧
      (walk cmd remaining queue).steps.map (Step.report cmd) = seen.steps.map (Step.report cmd) ∧
      (walk cmd remaining queue).steps.filterMap (Step.trade cmd) = seen.steps.filterMap (Step.trade cmd) ∧
      (walk cmd remaining queue).rest.map Node.view = seen.rest.map Node.view := by
  have firsts : (queue.map fun order => (order, order.view.node)).map Prod.fst = queue := by
    simp [List.map_map, Function.comp_def]
  have seconds : (queue.map fun order => (order, order.view.node)).map Prod.snd =
      (queue.map Node.view).map OrderView.node := by
    simp [List.map_map, Function.comp_def]
  have alike : Alike (queue.map fun order => (order, order.view.node)) := by
    intro pair member
    obtain ⟨order, -, rfl⟩ := List.mem_map.mp member
    rfl
  obtain ⟨left, steps, kept, keptFirst, keptSecond, keptAlike, -⟩ := walk_pairs cmd remaining _ alike
  rw [firsts, seconds] at left steps
  rw [firsts] at keptFirst
  rw [seconds] at keptSecond
  refine ⟨left, reports_eq steps, trades_eq steps, ?_⟩
  rw [keptFirst, keptSecond]
  exact views_of_pairs keptAlike

/-! ## Adding -/

/-- The scan sees the volume of the market. -/
theorem refuses_shown (wf : WellFormed engine) (cmd : AddOrder) :
    engine.refuses cmd ↔ cmd.timeInForce = .fok ∧
      offeredVolume (engine.shown.book cmd.symbol) (opposite cmd.side) cmd.priceTicks < cmd.quantity := by
  rw [MatchingEngine.refuses, PriceLevels.availableVolume_eq _ (wf.sides cmd.symbol (opposite cmd.side)),
    offeredVolume, book_shown, List.takeWhile_map, List.foldl_map]
  rfl

/-- An inserted order is queued behind everything that is not worse. -/
theorem queued_of_inserted {order : Node} (inserted : Inserted engine order next) :
    (next.resting order.symbol order.side).map Node.view =
      queued ((engine.resting order.symbol order.side).map Node.view) order.view := by
  obtain ⟨ahead, behind, before, after, front, back⟩ := inserted.queue
  obtain ⟨rfl, rfl⟩ := ahead_of_inserted order.side order.priceTicks before front back
  rw [after, queued, List.takeWhile_map, List.dropWhile_map, List.map_append, List.map_cons]
  rfl

/-- The sides of the add's book once its remainder is settled. -/
theorem settled_views (wf : WellFormed engine) {mid : MatchingEngine} (matched : Matched engine cmd mid)
    (remaining : Int64) (side : Side) :
    ((settled mid cmd remaining).resting cmd.symbol side).map Node.view =
      if side = opposite cmd.side then (engine.walkOf cmd).rest.map Node.view
      else if rests cmd remaining then
        queued ((engine.resting cmd.symbol side).map Node.view) (remainder cmd remaining)
      else (engine.resting cmd.symbol side).map Node.view := by
  have midWf := matched_wellFormed wf matched
  have settled_ : (settled mid cmd remaining).resting cmd.symbol side =
      (if rests cmd remaining then mid.restOrder cmd remaining else mid).resting cmd.symbol side := rfl
  rw [settled_]
  by_cases facing : side = opposite cmd.side
  · subst facing
    rw [if_pos rfl, ← matched.rest]
    split
    · rename_i resting
      have inserted := restOrder_inserted (midWf.sides cmd.symbol cmd.side) resting.1
      rw [resting_of_levels (inserted.elsewhere cmd.symbol (opposite cmd.side) (Or.inr (opposite_ne cmd.side)))]
    · rfl
  · have own : side = cmd.side := by
      cases which : cmd.side <;> cases side <;> simp_all [opposite]
    subst own
    rw [if_neg facing, ← resting_of_levels (matched.elsewhere cmd.symbol cmd.side (Or.inr facing))]
    split
    · rename_i resting
      exact queued_of_inserted (restOrder_inserted (midWf.sides cmd.symbol cmd.side) resting.1)
    · rfl

/-- An add does to its book, and is answered with, what the market says. -/
theorem add_enters (wf : WellFormed engine) {outcome : Outcome} (ran : engine.add cmd = .ok (next, outcome)) :
    cmd.symbol ∈ next.books ∧
      (∀ side, (next.resting cmd.symbol side).map Node.view = (enter (engine.shown.book cmd.symbol) cmd).1 side) ∧
      Answers outcome cmd.symbol (enter (engine.shown.book cmd.symbol) cmd).2 := by
  cases added_of_ran wf ran with
  | refused refuses =>
    rw [enter, if_pos ((refuses_shown wf cmd).mp refuses)]
    refine ⟨by simp [MatchingEngine.setBook], fun side => ?_, said_numbered _ _ _, rfl⟩
    change _ = engine.shown.book cmd.symbol side
    rw [book_shown]
    exact congrArg (List.map Node.view) (resting_of_levels (levels_open engine cmd.symbol cmd.symbol side))
  | accepted accepts mid matched =>
    obtain ⟨remaining, reports, trades, rest⟩ := walk_views cmd cmd.quantity
      (engine.resting cmd.symbol (opposite cmd.side))
    rw [← book_shown] at remaining reports trades rest
    have said : addReports cmd (engine.walkOf cmd) = addReports cmd (walk cmd cmd.quantity
        ((engine.shown.book cmd.symbol (opposite cmd.side)).map OrderView.node)) := by
      rw [addReports, addReports, MatchingEngine.walkOf, reports, remaining]
    rw [enter, if_neg fun held => accepts ((refuses_shown wf cmd).mpr held)]
    refine ⟨?_, fun side => ?_, ?_, trades⟩
    · unfold settled
      split
      · simp [MatchingEngine.restOrder, MatchingEngine.setBook]
      · exact matched.opened
    · rw [settled_views wf matched, MatchingEngine.walkOf, rest, remaining, ← book_shown]
    · rw [said_numbered, said]

/-! ## Taking out -/

/-- Under an index that knows every order, a book has no two orders of one id. -/
theorem same_in_book (wf : WellFormed engine) (indexed : Indexed engine) {side' : Side} {order other : Node}
    (member : order ∈ engine.resting symbol side) (member' : other ∈ engine.resting symbol side')
    (same : order.orderId = other.orderId) : side = side' ∧ order = other :=
  (same_id_same_order wf indexed member member' same).2

theorem orderUnder_none (indexed : Indexed engine) {orderId : Int64}
    (missing : engine.index.lookup orderId = none) (symbol : Bytes) :
    orderUnder (engine.shown.book symbol) orderId = none := by
  rw [orderUnder, List.find?_eq_none]
  intro order member same
  rw [book_shown, book_shown, ← List.map_append] at member
  obtain ⟨node, held, rfl⟩ := List.mem_map.mp member
  have named : node.orderId = orderId := of_decide_eq_true same
  have known : ∃ loc, engine.index.lookup orderId = some loc := by
    rw [← named]
    rcases List.mem_append.mp held with bid | ask
    · exact ⟨_, indexed _ _ node bid⟩
    · exact ⟨_, indexed _ _ node ask⟩
  obtain ⟨loc, entry⟩ := known
  rw [missing] at entry
  cases entry

section Known
variable {orderId : Int64} {loc : Location} {order : Node} (wf : WellFormed engine) (indexed : Indexed engine)
  (taken : TakenOut engine orderId loc order next)
include wf indexed taken

theorem orderUnder_known : orderUnder (engine.shown.book loc.symbol) orderId = some order.view := by
  have inside : order.view ∈ engine.shown.book loc.symbol .buy ++ engine.shown.book loc.symbol .sell := by
    rw [book_shown, book_shown, ← List.map_append]
    refine List.mem_map_of_mem ?_
    have held := taken.member
    cases which : loc.side with
    | buy =>
      rw [which] at held
      exact List.mem_append_left _ held
    | sell =>
      rw [which] at held
      exact List.mem_append_right _ held
  cases found : orderUnder (engine.shown.book loc.symbol) orderId with
  | none =>
    have absent := List.find?_eq_none.mp found order.view inside
    simp [Node.view, taken.named] at absent
  | some other =>
    have member := List.mem_of_find?_eq_some found
    have named : other.orderId = orderId := by simpa using List.find?_some found
    rw [book_shown, book_shown, ← List.map_append] at member
    obtain ⟨node, held, rfl⟩ := List.mem_map.mp member
    have sameId : node.orderId = order.orderId := by
      rw [taken.named]
      exact named
    rcases List.mem_append.mp held with bid | ask
    · rw [(same_in_book wf indexed bid taken.member sameId).2]
    · rw [(same_in_book wf indexed ask taken.member sameId).2]

/-- The order is the only one that leaves its book. -/
theorem without_known (side : Side) :
    (next.resting loc.symbol side).map Node.view = without (engine.shown.book loc.symbol) orderId side := by
  have kept : ∀ node ∈ next.resting loc.symbol side, node.orderId ≠ orderId := by
    intro node member same
    have found := takenOut_indexed wf indexed taken _ _ node member
    rw [same, taken.index, AList.lookup_erase] at found
    cases found
  have keptViews : ((next.resting loc.symbol side).map Node.view).filter (fun order => order.orderId ≠ orderId) =
      (next.resting loc.symbol side).map Node.view := by
    rw [List.filter_eq_self]
    intro view member
    obtain ⟨node, held, rfl⟩ := List.mem_map.mp member
    exact decide_eq_true (kept node held)
  rw [without, book_shown]
  by_cases here : side = loc.side
  · subst here
    obtain ⟨ahead, behind, before, after⟩ := taken.removed.queue
    rw [taken.symbol, taken.side] at before after
    rw [← keptViews, before, after]
    simp [Node.view, taken.named]
  · rw [← keptViews, resting_of_levels (taken.removed.elsewhere loc.symbol side
      (Or.inr (by rw [taken.side]; exact here)))]

end Known

theorem cancelled_view {order : Node} {orderId : Int64} (named : order.orderId = orderId) :
    cancelled order.view = (.cancelled, [(.orderId, .int orderId), (.remaining, .int order.remaining)]) := by
  rw [← named]
  rfl

/-- An engine that knows its orders, given a command for the right symbol,
makes the market. -/
theorem apply_shown (wf : WellFormed engine) (indexed : Indexed engine) {command : Command}
    (own : SymbolIsolation.OnOwnSymbol engine command) {outcome : Outcome}
    (ran : engine.apply command = .ok (next, outcome)) :
    next.shown = (engine.shown.apply command).1 ∧ Answers outcome command.symbol (engine.shown.apply command).2 := by
  cases applied_of_ran wf ran with
  | add cmd ran =>
    obtain ⟨opened, views, answers⟩ := add_enters wf ran
    exact ⟨shown_setBook opened (SymbolIsolation.add_stays_on_symbol wf ran).1 views, answers⟩
  | cancelUnknown cmd missing =>
    rw [Market.apply, orderUnder_none indexed missing]
    exact ⟨rfl, said_numbered _ _ _, rfl⟩
  | cancelKnown cmd loc order entry taken =>
    have named : loc.symbol = cmd.symbol := own loc entry
    have known := orderUnder_known wf indexed taken
    have opened := taken.opened
    have books := taken.books
    have views := without_known wf indexed taken
    rw [named] at known opened books views
    rw [Market.apply, known]
    simp only [cancelled_view taken.named]
    exact ⟨shown_setBook opened books views, said_numbered _ _ _, rfl⟩
  | replaceUnknown cmd missing =>
    rw [Market.apply, orderUnder_none indexed missing]
    exact ⟨rfl, said_numbered _ _ _, rfl⟩
  | replaceKnown cmd loc order mid answer entry taken added =>
    have named : loc.symbol = cmd.symbol := own loc entry
    have left : mid.shown.book cmd.symbol = without (engine.shown.book cmd.symbol) cmd.orderId := by
      funext side
      rw [book_shown, ← named, without_known wf indexed taken]
    have known := orderUnder_known wf indexed taken
    rw [named] at known
    have same : MatchingEngine.replacementOrder cmd order.view.participantId order.view.side =
        MatchingEngine.replacementOrder cmd order.participantId loc.side := by
      rw [← taken.side]
      rfl
    obtain ⟨opened, views, answers⟩ := add_enters taken.wellFormed added
    change cmd.symbol ∈ next.books at opened
    rw [show mid.shown.book (MatchingEngine.replacementOrder cmd order.participantId loc.side).symbol =
      without (engine.shown.book cmd.symbol) cmd.orderId from left] at views answers
    rw [Market.apply, known]
    simp only [same]
    refine ⟨shown_setBook opened (fun other away => ?_) views, ?_, answers.trades⟩
    · rw [(SymbolIsolation.add_stays_on_symbol taken.wellFormed added).1 other away,
        taken.books other (by rw [named]; exact away)]
    · rw [List.map_append, said_numbered, answers.events, cancelled_view taken.named]
      rfl

/-! ## One symbol at a time -/

/-- A command changes the book of its symbol only. -/
theorem apply_elsewhere (market : Market) (command : Command) {other : Bytes} (away : other ≠ command.symbol) :
    (market.apply command).1 other = market other := by
  cases command with
  | add cmd => exact if_neg away
  | cancel cmd =>
    rw [Market.apply]
    split
    · rfl
    · exact if_neg away
  | replace cmd =>
    rw [Market.apply]
    split
    · rfl
    · exact if_neg away

/-- What it does there and what it answers depends on that book only. -/
theorem apply_local {first second : Market} {command : Command}
    (same : first command.symbol = second command.symbol) :
    (first.apply command).2 = (second.apply command).2 ∧
      (first.apply command).1 command.symbol = (second.apply command).1 command.symbol := by
  have books : first.book command.symbol = second.book command.symbol := by rw [Market.book, same, Market.book]
  cases command with
  | add cmd =>
    change first.book cmd.symbol = second.book cmd.symbol at books
    simp [Market.apply, books, setBook, Command.symbol]
  | cancel cmd =>
    change first.book cmd.symbol = second.book cmd.symbol at books
    rw [Market.apply, Market.apply, books]
    split
    · exact ⟨rfl, same⟩
    · exact ⟨rfl, by simp [setBook, Command.symbol]⟩
  | replace cmd =>
    change first.book cmd.symbol = second.book cmd.symbol at books
    rw [Market.apply, Market.apply, books]
    split
    · exact ⟨rfl, same⟩
    · exact ⟨rfl, by simp [setBook, Command.symbol]⟩

end Market
end Exchange
