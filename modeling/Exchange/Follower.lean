import Exchange.Market

/-! The books read off the events. A follower hears every command with the
events that answer it and matches nothing: it lists the open orders as they
come to rest, takes off what is executed and strikes what is cancelled. As
long as no command brings in an id that still rests, the list has every level
of every book, in order. -/
namespace Exchange.Follower
open EngineSteps EngineInvariant OrderIndex

/-! ## What a follower does -/

/-- A part of an order is executed; with nothing left it is gone. -/
def execute (orders : List OrderView) (orderId qty : Int64) : List OrderView :=
  orders.filterMap fun order =>
    if order.orderId ≠ orderId then some order
    else if order.remaining = qty then none
    else some { order with remaining := order.remaining - qty }

def strike (orders : List OrderView) (orderId : Int64) : List OrderView :=
  orders.filter fun order => order.orderId ≠ orderId

/-- One event, about the open orders or about the order that came in. -/
def hear (incoming : Option AddOrder) (orders : List OrderView) (type : EventType) (payload : Payload) :
    Option (List OrderView) :=
  match type with
  | .accepted | .rejected => some orders
  | .executed => do
    let orderId ← payloadInt payload .passiveOrderId
    let qty ← payloadInt payload .qty
    some (execute orders orderId qty)
  | .cancelled => do
    let orderId ← payloadInt payload .orderId
    some (strike orders orderId)
  | .rested => do
    let cmd ← incoming
    let orderId ← payloadInt payload .orderId
    let remaining ← payloadInt payload .remaining
    some (orders ++ [{ Market.remainder cmd remaining with orderId := orderId }])

/-- The order a command brings in. A replace keeps owner and side of an open order. -/
def incoming (orders : List OrderView) : Command → Option AddOrder
  | .add cmd => some cmd
  | .cancel _ => none
  | .replace cmd => (orders.find? fun order => order.orderId = cmd.orderId).map fun order =>
      MatchingEngine.replacementOrder cmd order.participantId order.side

def hearAll (incoming : Option AddOrder) (orders : List OrderView) (events : List ExecEvent) :
    Option (List OrderView) :=
  events.foldlM (fun orders event => hear incoming orders event.type event.payload) orders

/-- A command and the events it was answered with. -/
def follow (orders : List OrderView) (heard : Command × List ExecEvent) : Option (List OrderView) :=
  hearAll (incoming orders heard.1) orders heard.2

/-- An order that comes in does not carry the id of a resting order, except
that of the order it replaces. -/
def UnusedId (engine : MatchingEngine) : Command → Prop
  | .add cmd => ∀ order ∈ engine.orders, order.orderId ≠ cmd.orderId
  | .cancel _ => True
  | .replace cmd => (engine.index.lookup cmd.orderId).isSome → cmd.newOrderId ≠ cmd.orderId →
      ∀ order ∈ engine.orders, order.orderId ≠ cmd.newOrderId

instance (engine : MatchingEngine) : ∀ command, Decidable (UnusedId engine command)
  | .add _ => inferInstanceAs (Decidable (∀ order ∈ engine.orders, _))
  | .cancel _ => inferInstanceAs (Decidable True)
  | .replace _ => inferInstanceAs (Decidable (_ → _))

/-- The open orders of one level, in the order in which they came to rest. -/
def openAt (orders : List OrderView) (symbol : Bytes) (side : Side) (price : Int64) : List OrderView :=
  orders.filter fun order => order.symbol = symbol ∧ order.side = side ∧ order.priceTicks = price

/-- The list has, level by level, what is shown. -/
def Tells (orders : List OrderView) (shown : Bytes → Side → List OrderView) : Prop :=
  ∀ symbol side price, openAt (shown symbol side) symbol side price = openAt orders symbol side price

/-- The queue of a side as it is shown. -/
def views (engine : MatchingEngine) (symbol : Bytes) (side : Side) : List OrderView :=
  (engine.resting symbol side).map Node.view

variable {engine mid next : MatchingEngine} {cmd : AddOrder} {orders : List OrderView}
  {shown : Bytes → Side → List OrderView} {orderId qty : Int64}

/-! ## Levels -/

theorem openAt_execute (symbol : Bytes) (side : Side) (price : Int64) :
    openAt (execute orders orderId qty) symbol side price = execute (openAt orders symbol side price) orderId qty := by
  induction orders with
  | nil => rfl
  | cons order rest ih =>
    simp only [openAt, execute, List.filterMap_cons, List.filter_cons] at ih ⊢
    grind

theorem openAt_strike (symbol : Bytes) (side : Side) (price : Int64) :
    openAt (strike orders orderId) symbol side price = strike (openAt orders symbol side price) orderId :=
  List.filter_comm ..

theorem openAt_append (first second : List OrderView) (symbol : Bytes) (side : Side) (price : Int64) :
    openAt (first ++ second) symbol side price = openAt first symbol side price ++ openAt second symbol side price :=
  List.filter_append ..

theorem execute_other (away : ∀ order ∈ orders, order.orderId ≠ orderId) :
    execute orders orderId qty = orders := by
  refine (List.filterMap_congr fun order member => ?_).trans (List.filterMap_some ..)
  exact if_pos (away order member)

theorem strike_other (away : ∀ order ∈ orders, order.orderId ≠ orderId) : strike orders orderId = orders :=
  List.filter_eq_self.mpr fun order member => decide_eq_true (away order member)

/-! ## The walk -/

/-- What a follower hears of a step. -/
def heard (cmd : AddOrder) (orders : List OrderView) : Step → List OrderView
  | .fill passive qty => execute orders passive.orderId qty
  | .cancelPassive passive => strike orders passive.orderId
  | .cancelAggressor _ => strike orders cmd.orderId

theorem hear_report (cmd : AddOrder) (orders : List OrderView) (step : Step) :
    hear (some cmd) orders (step.report cmd).1 (step.report cmd).2 = some (heard cmd orders step) := by
  cases step <;> rfl

theorem tells_heard (tells : Tells orders shown) (steps : List Step) :
    Tells (steps.foldl (heard cmd) orders) fun symbol side => steps.foldl (heard cmd) (shown symbol side) := by
  induction steps generalizing orders shown with
  | nil => exact tells
  | cons step steps ih =>
    refine ih fun symbol side price => ?_
    cases step with
    | fill passive qty => rw [heard, heard, openAt_execute, openAt_execute, tells]
    | cancelPassive passive => rw [heard, heard, openAt_strike, openAt_strike, tells]
    | cancelAggressor remaining => rw [heard, heard, openAt_strike, openAt_strike, tells]

/-- Steps that are about other orders leave a list as it is. -/
theorem heard_elsewhere {steps : List Step} (fresh : ∀ order ∈ orders, order.orderId ≠ cmd.orderId)
    (away : ∀ step ∈ steps, ∀ passive, step.passive = some passive → ∀ order ∈ orders,
      order.orderId ≠ passive.orderId) :
    steps.foldl (heard cmd) orders = orders := by
  induction steps with
  | nil => rfl
  | cons step steps ih =>
    have first := away step (List.mem_cons_self ..)
    have same : heard cmd orders step = orders := by
      cases step with
      | fill passive qty => exact execute_other (first passive rfl)
      | cancelPassive passive => exact strike_other (first passive rfl)
      | cancelAggressor remaining => exact strike_other fresh
    rw [List.foldl_cons, same]
    exact ih fun step member => away step (List.mem_cons_of_mem _ member)

/-- The steps of a walk do to its queue what the walk does. -/
theorem heard_walk (cmd : AddOrder) (remaining : Int64) {queue : List Node}
    (distinct : (queue.map fun order => order.orderId).Nodup)
    (fresh : ∀ order ∈ queue, order.orderId ≠ cmd.orderId) :
    (walk cmd remaining queue).steps.foldl (heard cmd) (queue.map Node.view) =
      (walk cmd remaining queue).rest.map Node.view := by
  induction queue generalizing remaining with
  | nil => rfl
  | cons passive rest ih =>
    obtain ⟨other, distinct⟩ := List.nodup_cons.mp distinct
    obtain ⟨new, fresh⟩ := List.forall_mem_cons.mp fresh
    have behind : ∀ order ∈ rest.map Node.view, order.orderId ≠ passive.orderId := by
      refine List.forall_mem_map.mpr fun order member same => other ?_
      exact List.mem_map.mpr ⟨order, member, same⟩
    have freshViews : ∀ order ∈ rest.map Node.view, order.orderId ≠ cmd.orderId := List.forall_mem_map.mpr fresh
    have struck : strike ((passive :: rest).map Node.view) passive.orderId = rest.map Node.view := by
      rw [strike, List.map_cons, List.filter_cons_of_neg (by simp [Node.view])]
      exact strike_other behind
    simp only [walk]
    split
    · rfl
    · rename_i started
      split
      · split
        · simp only [List.foldl_cons, List.foldl_nil, heard, struck]
          exact strike_other freshViews
        · exact strike_other (List.forall_mem_cons.mpr ⟨new, freshViews⟩)
        · rw [Walk.after, List.foldl_cons, heard, struck]
          exact ih remaining distinct fresh
      · split
        · rename_i partly
          have left : ¬ passive.remaining = remaining := fun same => absurd partly (by simp [same])
          have cut : execute [passive.view] passive.orderId remaining =
              [{ passive.view with remaining := passive.remaining - remaining }] := by
            simp [execute, Node.view, left]
          have kept : execute (rest.map Node.view) passive.orderId remaining = rest.map Node.view :=
            execute_other behind
          rw [execute] at kept cut
          simp only [List.foldl_cons, List.foldl_nil, heard, execute, List.map_cons]
          rw [← List.singleton_append, List.filterMap_append, kept, cut]
          rfl
        · have gone : execute ((passive :: rest).map Node.view) passive.orderId passive.remaining =
              rest.map Node.view := by
            rw [execute, List.map_cons, List.filterMap_cons_none (by simp [Node.view])]
            exact execute_other behind
          rw [Walk.after, List.foldl_cons, heard, gone]
          exact ih _ distinct fresh

/-! ## Adding -/

theorem hearAll_numbered (incoming : Option AddOrder) (symbol : Bytes) (sequence : Int)
    (reports : List (EventType × Payload)) : hearAll incoming orders (numbered symbol sequence reports) =
      reports.foldlM (fun orders report => hear incoming orders report.1 report.2) orders := by
  induction reports generalizing sequence orders with
  | nil => rfl
  | cons report rest ih =>
    rw [numbered, hearAll, List.foldlM_cons, List.foldlM_cons]
    exact bind_congr fun orders => ih (sequence + 1)

theorem hear_steps (cmd : AddOrder) (steps : List Step) :
    (steps.map (Step.report cmd)).foldlM (fun orders report => hear (some cmd) orders report.1 report.2) orders =
      some (steps.foldl (heard cmd) orders) := by
  induction steps generalizing orders with
  | nil => rfl
  | cons step steps ih =>
    rw [List.map_cons, List.foldlM_cons, hear_report]
    exact ih

/-- No order of the engine has this id. -/
def Unused (engine : MatchingEngine) (orderId : Int64) : Prop :=
  ∀ symbol side, ∀ order ∈ engine.resting symbol side, order.orderId ≠ orderId

theorem unused_views (unused : Unused engine orderId) (symbol : Bytes) (side : Side) :
    ∀ order ∈ views engine symbol side, order.orderId ≠ orderId :=
  List.forall_mem_map.mpr (unused symbol side)

theorem tells_views (tells : Tells orders (views engine))
    (same : ∀ symbol side, views next symbol side = views engine symbol side) :
    Tells orders (views next) := by
  intro symbol side price
  rw [same]
  exact tells symbol side price

theorem tells_strike_unused (tells : Tells orders (views engine)) (unused : Unused engine orderId) :
    Tells (strike orders orderId) (views engine) := by
  intro symbol side price
  rw [openAt_strike, ← tells]
  exact (strike_other fun order member => unused_views unused symbol side order (List.mem_of_mem_filter member)).symm

theorem tells_matched (wf : WellFormed engine) (indexed : Indexed engine) (tells : Tells orders (views engine))
    (unused : Unused engine cmd.orderId) (matched : Matched engine cmd mid) :
    Tells ((engine.walkOf cmd).steps.foldl (heard cmd) orders) (views mid) := by
  have after : Tells ((engine.walkOf cmd).steps.foldl (heard cmd) orders) _ :=
    tells_heard tells (engine.walkOf cmd).steps
  suffices same :
      (fun symbol side => (engine.walkOf cmd).steps.foldl (heard cmd) (views engine symbol side)) = views mid by
    rwa [same] at after
  funext symbol side
  by_cases here : symbol = cmd.symbol ∧ side = opposite cmd.side
  · obtain ⟨rfl, rfl⟩ := here
    rw [views, views, matched.rest]
    exact heard_walk cmd cmd.quantity ((cancellable wf indexed).once _ _) (unused _ _)
  · rw [views, views, resting_of_levels (matched.elsewhere symbol side (by tauto))]
    refine heard_elsewhere (unused_views unused symbol side) fun step taken passive acts => ?_
    refine List.forall_mem_map.mpr fun order member sameId => here ?_
    obtain ⟨sameSymbol, sameSide, -⟩ :=
      same_id_same_order wf indexed member (MatchWalk.walk_acts_on_queue taken acts) sameId
    exact ⟨sameSymbol, sameSide⟩

/-- A new order is the last of its level. -/
theorem tells_inserted (tells : Tells orders (views engine)) {order : Node} (inserted : Inserted engine order next) :
    Tells (orders ++ [order.view]) (views next) := by
  intro symbol side price
  rw [openAt_append]
  by_cases here : symbol = order.symbol ∧ side = order.side
  · obtain ⟨rfl, rfl⟩ := here
    obtain ⟨ahead, behind, before, after, front, back⟩ := inserted.queue
    have told := tells order.symbol order.side price
    rw [views, before, List.map_append, openAt_append] at told
    rw [views, after, List.map_append, List.map_cons, ← List.singleton_append, openAt_append, openAt_append, ← told,
      List.append_assoc, List.append_cancel_left_eq]
    by_cases level : order.priceTicks = price
    · have none : openAt (behind.map Node.view) order.symbol order.side price = [] := by
        refine List.filter_eq_nil_iff.mpr (List.forall_mem_map.mpr fun later member place => ?_)
        have worse := PriceLevels.beyond_ne (back later member)
        exact worse (level.trans (of_decide_eq_true place).2.2.symm)
      rw [none, List.append_nil, List.nil_append]
    · have none : openAt [order.view] order.symbol order.side price = [] :=
        List.filter_eq_nil_iff.mpr fun other member place => by
          rw [List.mem_singleton.mp member] at place
          exact level (of_decide_eq_true place).2.2
      rw [none, List.append_nil, List.nil_append]
  · have none : openAt [order.view] symbol side price = [] :=
      List.filter_eq_nil_iff.mpr fun other member place => by
        rw [List.mem_singleton.mp member] at place
        exact here ⟨(of_decide_eq_true place).1.symm, (of_decide_eq_true place).2.1.symm⟩
    rw [none, List.append_nil, views, resting_of_levels (inserted.elsewhere symbol side (by tauto))]
    exact tells symbol side price

theorem unused_matched (unused : Unused engine orderId) (matched : Matched engine cmd mid) : Unused mid orderId := by
  intro symbol side order member
  obtain ⟨original, held, left, rfl, -⟩ := mem_matched matched member
  exact unused symbol side original held

/-- What becomes of the remainder. -/
theorem tells_settled (midWf : WellFormed mid) (tells : Tells orders (views mid)) (unused : Unused mid cmd.orderId)
    (remaining : Int64) :
    ∃ after, (closing cmd remaining).foldlM (fun orders report => hear (some cmd) orders report.1 report.2) orders =
      some after ∧ Tells after (views (settled mid cmd remaining)) := by
  have settledViews (symbol : Bytes) (side : Side) : views (settled mid cmd remaining) symbol side =
      views (if rests cmd remaining then mid.restOrder cmd remaining else mid) symbol side := rfl
  rw [closing]
  split
  · rename_i more
    cases tif : cmd.timeInForce with
    | gtc =>
      have resting : rests cmd remaining := ⟨more, tif⟩
      have inserted := restOrder_inserted (midWf.sides cmd.symbol cmd.side) more
      refine ⟨orders ++ [(restingNode mid cmd remaining).view], rfl, tells_views (tells_inserted tells inserted) ?_⟩
      intro symbol side
      rw [settledViews, if_pos resting]
    | ioc =>
      refine ⟨strike orders cmd.orderId, rfl, tells_views (tells_strike_unused tells unused) ?_⟩
      intro symbol side
      rw [settledViews, if_neg fun resting => by simp [rests, tif] at resting]
    | market =>
      refine ⟨strike orders cmd.orderId, rfl, tells_views (tells_strike_unused tells unused) ?_⟩
      intro symbol side
      rw [settledViews, if_neg fun resting => by simp [rests, tif] at resting]
    | fok =>
      refine ⟨orders, rfl, tells_views tells ?_⟩
      intro symbol side
      rw [settledViews, if_neg fun resting => by simp [rests, tif] at resting]
  · rename_i done
    refine ⟨orders, rfl, tells_views tells ?_⟩
    intro symbol side
    rw [settledViews, if_neg fun resting => done resting.1]

theorem add_heard (wf : WellFormed engine) (indexed : Indexed engine) (tells : Tells orders (views engine))
    (unused : Unused engine cmd.orderId) {outcome : Outcome} (ran : engine.add cmd = .ok (next, outcome)) :
    ∃ after, hearAll (some cmd) orders outcome.events = some after ∧ Tells after (views next) := by
  cases added_of_ran wf ran with
  | refused refuses =>
    refine ⟨orders, hearAll_numbered .., tells_views tells fun symbol side => ?_⟩
    exact congrArg (List.map Node.view) (resting_of_levels (levels_open engine cmd.symbol symbol side))
  | accepted accepts mid matched =>
    obtain ⟨after, heardRest, told⟩ := tells_settled (matched_wellFormed wf matched)
      (tells_matched wf indexed tells unused matched) (unused_matched unused matched) (engine.walkOf cmd).remaining
    refine ⟨after, ?_, told⟩
    rw [hearAll_numbered, addReports, List.foldlM_cons]
    change List.foldlM _ orders _ = _
    rw [List.foldlM_append, hear_steps]
    exact heardRest

/-! ## Taking out -/

section
variable (wf : WellFormed engine) (indexed : Indexed engine) {loc : Location} {order : Node}
  (taken : TakenOut engine orderId loc order next)
include wf indexed taken

theorem unused_takenOut : Unused next orderId := by
  intro symbol side node member same
  have found := takenOut_indexed wf indexed taken symbol side node member
  rw [same, taken.index, AList.lookup_erase] at found
  cases found

theorem tells_takenOut (tells : Tells orders (views engine)) : Tells (strike orders orderId) (views next) := by
  suffices same : ∀ symbol side, views next symbol side = strike (views engine symbol side) orderId by
    intro symbol side price
    rw [same, openAt_strike, openAt_strike, tells]
  intro symbol side
  have kept := strike_other (unused_views (unused_takenOut wf indexed taken) symbol side)
  by_cases here : symbol = order.symbol ∧ side = order.side
  · obtain ⟨rfl, rfl⟩ := here
    obtain ⟨ahead, behind, before, after⟩ := taken.removed.queue
    rw [← kept, views, views, before, after]
    simp [strike, Node.view, taken.named]
  · rw [← kept, views, views, resting_of_levels (taken.removed.elsewhere symbol side (by tauto))]

/-- The follower knows the order under its id. -/
theorem find_known (tells : Tells orders (views engine)) :
    (orders.find? fun order => order.orderId = orderId) = some order.view := by
  have inside : order.view ∈ orders := by
    have shown : order.view ∈ openAt (views engine loc.symbol loc.side) loc.symbol loc.side order.priceTicks :=
      List.mem_filter.mpr ⟨List.mem_map_of_mem taken.member, decide_eq_true ⟨taken.symbol, taken.side, rfl⟩⟩
    rw [tells] at shown
    exact List.mem_of_mem_filter shown
  cases found : orders.find? fun order => order.orderId = orderId with
  | none =>
    have absent := List.find?_eq_none.mp found order.view inside
    exact absurd (decide_eq_true taken.named) absent
  | some other =>
    have named : other.orderId = orderId := by simpa using List.find?_some found
    have shown : other ∈ openAt orders other.symbol other.side other.priceTicks :=
      List.mem_filter.mpr ⟨List.mem_of_find?_eq_some found, decide_eq_true ⟨rfl, rfl, rfl⟩⟩
    rw [← tells] at shown
    obtain ⟨node, held, rfl⟩ := List.mem_map.mp (List.mem_of_mem_filter shown)
    rw [(same_id_same_order wf indexed held taken.member (named.trans taken.named.symm)).2.2]

end

/-! ## Commands -/

theorem noLiveId {command : Command} (unused : UnusedId engine command) : NoLiveId engine command := by
  cases command with
  | add cmd => exact fun _ _ => unused
  | cancel cmd => trivial
  | replace cmd => exact fun _ _ => unused

/-- A follower who hears what a command is answered with still has every level. -/
theorem apply_heard (wf : WellFormed engine) (indexed : Indexed engine) (tells : Tells orders (views engine))
    {command : Command} (unused : UnusedId engine command) {outcome : Outcome}
    (ran : engine.apply command = .ok (next, outcome)) :
    ∃ after, follow orders (command, outcome.events) = some after ∧ Tells after (views next) := by
  cases applied_of_ran wf ran with
  | add cmd ran =>
    exact add_heard wf indexed tells
      (fun symbol side order member => unused order (mem_orders.mpr ⟨symbol, side, member⟩)) ran
  | cancelUnknown cmd missing => exact ⟨orders, rfl, tells_views tells fun _ _ => rfl⟩
  | cancelKnown cmd loc order entry taken =>
    exact ⟨strike orders cmd.orderId, rfl, tells_takenOut wf indexed taken tells⟩
  | replaceUnknown cmd missing => exact ⟨orders, rfl, tells_views tells fun _ _ => rfl⟩
  | replaceKnown cmd loc order mid added entry taken ranAdd =>
    have told := tells_takenOut wf indexed taken tells
    have gone := unused_takenOut wf indexed taken
    have free : Unused mid cmd.newOrderId := by
      by_cases reused : cmd.newOrderId = cmd.orderId
      · rw [reused]
        exact gone
      · intro symbol side other member
        exact unused (by simp [entry]) reused other
          (mem_orders.mpr ⟨symbol, side, mem_removed taken.removed member⟩)
    obtain ⟨after, heardRest, shown⟩ :=
      add_heard taken.wellFormed (takenOut_indexed wf indexed taken) told free ranAdd
    refine ⟨after, ?_, shown⟩
    have known : incoming orders (.replace cmd) =
        some (MatchingEngine.replacementOrder cmd order.participantId loc.side) := by
      rw [incoming, find_known wf indexed taken tells, ← taken.side]
      rfl
    rw [follow, known, hearAll, List.foldlM_append]
    exact heardRest

/-! ## Runs -/

theorem follow_run (wf : WellFormed engine) (indexed : Indexed engine) (tells : Tells orders (views engine))
    {commands : List Command} (unused : Meets MatchingEngine.apply UnusedId engine commands) :
    ∃ final outcomes after, run MatchingEngine.apply engine commands = .ok (final, outcomes) ∧ WellFormed final ∧
      (commands.zip (outcomes.map Outcome.events)).foldlM follow orders = some after ∧ Tells after (views final) := by
  induction commands generalizing engine orders with
  | nil => exact ⟨engine, [], orders, rfl, wf, rfl, tells⟩
  | cons command commands ih =>
    obtain ⟨first, later⟩ := unused
    obtain ⟨next, outcome, ran, nextWf⟩ := apply_wellFormed wf command
    simp only [ran] at later
    obtain ⟨mid, heardFirst, told⟩ := apply_heard wf indexed tells first ran
    obtain ⟨final, outcomes, after, rest, finalWf, heardRest, shown⟩ :=
      ih nextWf (apply_indexed wf indexed (noLiveId first) ran) told later
    refine ⟨final, outcome :: outcomes, after, ?_, finalWf, ?_, shown⟩
    · rw [Runs.run_cons ran, rest]
      rfl
    · rw [List.map_cons, List.zip_cons_cons, List.foldlM_cons, heardFirst]
      exact heardRest

/-- A level is what its queue has at its price. -/
theorem level_eq_filter {symbol : Bytes} {side : Side} {levels : BookSide} (wf : SideWellFormed symbol side levels)
    (price : Int64) :
    (levels.find price).getD [] = (queue side levels).filter fun order => order.priceTicks = price := by
  cases found : levels.find price with
  | none =>
    refine (List.filter_eq_nil_iff.mpr fun order member same => ?_).symm
    obtain ⟨-, level, stored, -⟩ := PriceLevels.level_of_mem_queue wf member
    rw [of_decide_eq_true same, found] at stored
    cases stored
  | some level =>
    obtain ⟨ahead, behind, split⟩ := PriceLevels.bestFirst_of_find side found
    have sorted := PriceLevels.bestFirst_sorted side levels
    have stored := PriceLevels.bestFirst_wellFormed wf
    rw [split, List.pairwise_append, List.pairwise_cons] at sorted
    have other (entries : List (Int64 × Level)) (inside : entries ⊆ bestFirst side levels)
        (different : ∀ entry ∈ entries, entry.1 ≠ price) :
        (entries.flatMap Prod.snd).filter (fun order => order.priceTicks = price) = [] := by
      refine List.filter_eq_nil_iff.mpr fun order member same => ?_
      obtain ⟨entry, held, listed⟩ := List.mem_flatMap.mp member
      exact different entry held
        (((stored entry (inside held)).2 order listed).price.symm.trans (of_decide_eq_true same))
    have own : level.filter (fun order => order.priceTicks = price) = level :=
      List.filter_eq_self.mpr fun order member => decide_eq_true (PriceLevels.placed_of_find wf found member).price
    have front := other ahead (by simp [split]) fun entry member =>
      PriceLevels.beyond_ne (sorted.2.2 entry member (price, level) (List.mem_cons_self ..))
    have back := other behind (by
        rw [split]
        exact fun entry member => List.mem_append_right _ (List.mem_cons_of_mem _ member)) fun entry member =>
      (PriceLevels.beyond_ne (sorted.2.1.1 entry member)).symm
    rw [PriceLevels.queue_of_split split, List.filter_append, List.filter_append, front, own, back, List.append_nil]
    rfl

/-- In every run in which no command brings in an id that still rests, a
follower of the events has, level by level and in order, the books of the
engine. -/
theorem events_tell_the_books (commands : List Command) (unused : Meets MatchingEngine.apply UnusedId {} commands) :
    ∃ engine outcomes orders, run MatchingEngine.apply {} commands = .ok (engine, outcomes) ∧
      (commands.zip (outcomes.map Outcome.events)).foldlM follow [] = some orders ∧
      ∀ symbol side price, (((engine.levels symbol side).find price).getD []).map Node.view =
        openAt orders symbol side price := by
  have start : Tells [] (views {}) := by
    intro symbol side price
    cases side <;> rfl
  obtain ⟨engine, outcomes, orders, ran, wf, heardAll, tells⟩ :=
    follow_run wellFormed_empty indexed_empty start unused
  refine ⟨engine, outcomes, orders, ran, heardAll, fun symbol side price => ?_⟩
  rw [← tells, level_eq_filter (wf.sides symbol side)]
  have placed : ∀ order ∈ engine.resting symbol side, order.symbol = symbol ∧ order.side = side :=
      fun order member => by
    have placed := (PriceLevels.level_of_mem_queue (wf.sides symbol side) member).1
    exact ⟨placed.symbol, placed.side⟩
  rw [openAt, views, List.filter_map]
  refine congrArg (List.map Node.view) (List.filter_congr fun order member => ?_)
  obtain ⟨sameSymbol, sameSide⟩ := placed order member
  simp [Node.view, sameSymbol, sameSide]

/-- Two asks at one price, one of them taken in part and moved, the other struck
by its owner's own bid, of which the rest is cancelled. -/
def twoAsks : List Command :=
  [.add { symbol := ascii "S", orderId := 1, participantId := ascii "A", side := .sell, priceTicks := 100,
          quantity := 5 },
    .add { symbol := ascii "S", orderId := 2, participantId := ascii "B", side := .sell, priceTicks := 100,
           quantity := 5 },
    .add { symbol := ascii "S", orderId := 3, participantId := ascii "C", priceTicks := 101, quantity := 2,
           timeInForce := .ioc },
    .replace { symbol := ascii "S", orderId := 1, newOrderId := 4, newPriceTicks := 102, newQuantity := 3 },
    .add { symbol := ascii "S", orderId := 5, participantId := ascii "B", priceTicks := 100, quantity := 1,
           timeInForce := .ioc, stp := .cancelPassive }]

theorem two_asks_are_told :
    ∃ engine outcomes orders, run MatchingEngine.apply {} twoAsks = .ok (engine, outcomes) ∧
      (twoAsks.zip (outcomes.map Outcome.events)).foldlM follow [] = some orders ∧
      ∀ symbol side price, (((engine.levels symbol side).find price).getD []).map Node.view =
        openAt orders symbol side price :=
  events_tell_the_books twoAsks (by decide)

end Exchange.Follower
