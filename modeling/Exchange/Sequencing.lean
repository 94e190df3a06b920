import Exchange.Gateway
import Exchange.ShardComponents

/-! The ingress stage: a sequencer numbers the commands, the ring buffers them
and drops the oldest when it is full, and what comes out goes to the sharded
engine with its number. Dropping leaves gaps and no more: the numbers still
grow, so the engine refuses none of them and answers as it would without. -/
namespace Exchange.Sequencing
open EngineInvariant ShardedSteps ShardComponents
open ShardedMatchingEngine (shardOf)

variable {shardCount : Nat}

structure Ingress (shardCount : Nat) where
  sequencer : Sequencer := {}
  ring : IngressRing
  engine : ShardedMatchingEngine shardCount

/-- A command comes in, or the oldest buffered one is taken to the engine. -/
inductive IngressMove where
  | receive (command : Command)
  | deliver

/-- What a move shows. -/
inductive IngressEvent where
  | sequenced (item : SequencedCommand)
  | delivered (item : SequencedCommand) (outcome : Outcome)
  | idle

/-- The engine call of a sequenced command. -/
def callOf (item : SequencedCommand) : ShardedMatchingEngine.Call :=
  callWith (some item.ingressSequence) item.command

def step [NeZero shardCount] (state : Ingress shardCount) :
    IngressMove → Except Fault (Ingress shardCount × IngressEvent)
  | .receive command =>
    let (item, sequencer) := state.sequencer.assign command
    .ok ({ state with sequencer, ring := state.ring.push item }, .sequenced item)
  | .deliver =>
    match state.ring.pop with
    | (none, _) => .ok (state, .idle)
    | (some item, ring) => do
      let (engine, outcome) ← state.engine.apply (callOf item)
      .ok ({ state with ring, engine }, .delivered item outcome)

/-! ## Numbers do not matter -/

/-- The engine without its ingress counters. -/
def forget (state : ShardedMatchingEngine shardCount) : ShardedMatchingEngine shardCount :=
  { state with lastIngressSequence := fun _ => 0 }

/-- `validate_ingress` has let a number through. -/
def remember (state : ShardedMatchingEngine shardCount) (shard : Fin shardCount) (number : Int64) :
    ShardedMatchingEngine shardCount :=
  { state with lastIngressSequence := fun other => if other = shard then number else state.lastIngressSequence other }

variable {state next : ShardedMatchingEngine shardCount}

/-- The counters of one state with the rest of another: only `validate_ingress`
looks at them, and a call without a number passes it. -/
theorem dispatch_counters (counters : Fin shardCount → Int64) (state : ShardedMatchingEngine shardCount)
    (shard : Fin shardCount) (symbol : Bytes) (orderId : Int64) (refused : RiskLimits → Option (Bytes × Json))
    (line : Json) (operation : MatchingEngine → Except Fault (MatchingEngine × Outcome)) :
    dispatch { state with lastIngressSequence := counters } shard none symbol orderId refused line operation =
      (dispatch state shard none symbol orderId refused line operation).map fun result =>
        ({ result.1 with lastIngressSequence := counters }, result.2) := by
  simp only [dispatch, ShardedMatchingEngine.validateIngress]
  cases refused state.limits with
  | some refusal => rfl
  | none =>
    simp only
    cases operation (state.engines shard) <;> rfl

theorem dispatch_passes {shard : Fin shardCount} {number : Int64} (above : state.lastIngressSequence shard < number)
    (symbol : Bytes) (orderId : Int64) (refused : RiskLimits → Option (Bytes × Json)) (line : Json)
    (operation : MatchingEngine → Except Fault (MatchingEngine × Outcome)) :
    dispatch state shard (some number) symbol orderId refused line operation =
      dispatch (remember state shard number) shard none symbol orderId refused line operation := by
  simp only [dispatch, ShardedMatchingEngine.validateIngress, if_neg (not_le.mpr above), remember]

variable [NeZero shardCount]

/-- A command whose number is above the counter is answered as without it, and
moves the counter of its shard. -/
theorem numbered_call (command : Command) {number : Int64}
    (above : state.lastIngressSequence (shardOf command.symbol) < number) {outcome : Outcome}
    (ran : state.apply (callWith (some number) command) = .ok (next, outcome)) :
    (forget state).apply (callWith none command) = .ok (forget next, outcome) ∧
      next.lastIngressSequence = (remember state (shardOf command.symbol) number).lastIngressSequence := by
  obtain ⟨orderId, refused, line, operation, shape⟩ := apply_dispatches command
  rw [shape] at ran ⊢
  rw [dispatch_passes above, remember, dispatch_counters] at ran
  rw [forget, dispatch_counters]
  cases plain : dispatch state (shardOf command.symbol) none command.symbol orderId refused line operation with
  | error fault => simp [plain, Except.map] at ran
  | ok result =>
    simp only [plain, Except.map, Except.ok.injEq, Prod.mk.injEq] at ran
    obtain ⟨rfl, rfl⟩ := ran
    exact ⟨rfl, rfl⟩

/-! ## Runs -/

/-- The numbered commands, in the order in which they came in. -/
def sequencedItems (events : List IngressEvent) : List SequencedCommand :=
  events.filterMap fun
    | .sequenced item => some item
    | _ => none

/-- The commands that went to the engine, each with what it returned. -/
def deliveries (events : List IngressEvent) : List (SequencedCommand × Outcome) :=
  events.filterMap fun
    | .delivered item outcome => some (item, outcome)
    | _ => none

theorem sequencedItems_append (events more : List IngressEvent) :
    sequencedItems (events ++ more) = sequencedItems events ++ sequencedItems more :=
  List.filterMap_append

theorem deliveries_append (events more : List IngressEvent) :
    deliveries (events ++ more) = deliveries events ++ deliveries more :=
  List.filterMap_append

/-- The sequencer does not run out of numbers. -/
def Counts (state : Ingress shardCount) : IngressMove → Prop
  | .receive _ => state.sequencer.next.toInt < 2 ^ 63 - 1
  | .deliver => True

/-- What holds after every run: the numbers count the commands, what was
delivered and what is buffered is in order, every buffered number is above the
counters and below the next one, and the engine has done what it would do for
the delivered commands without their numbers. -/
structure InSequence (start : ShardedMatchingEngine shardCount) (state : Ingress shardCount)
    (events : List IngressEvent) : Prop where
  sound : ∀ shard, WellFormed (state.engine.engines shard)
  counter : state.sequencer.next.toInt = (sequencedItems events).length + 1
  numbered : (sequencedItems events).map (fun item => item.ingressSequence.toInt) =
    (List.range (sequencedItems events).length).map fun place => (place : Int) + 1
  order : ((deliveries events).map Prod.fst ++ state.ring.queue).Sublist (sequencedItems events)
  grows : state.ring.queue.Pairwise fun first second => first.ingressSequence < second.ingressSequence
  behind : ∀ shard, state.engine.lastIngressSequence shard < state.sequencer.next ∧
    ∀ item ∈ state.ring.queue, state.engine.lastIngressSequence shard < item.ingressSequence
  ahead : ∀ item ∈ state.ring.queue, item.ingressSequence < state.sequencer.next
  ran : run ShardedMatchingEngine.apply start ((deliveries events).map fun made => callWith none made.1.command) =
    .ok (forget state.engine, (deliveries events).map Prod.snd)

variable {start : ShardedMatchingEngine shardCount} {ingress : Ingress shardCount} {events : List IngressEvent}

/-- What the ring holds after a push: at most its oldest entry is gone. -/
theorem push_queue (ring : IngressRing) (item : SequencedCommand) :
    ∃ kept, kept.Sublist ring.queue ∧ (ring.push item).queue = kept ++ [item] := by
  unfold IngressRing.push
  split
  · exact ⟨ring.queue.tail, List.tail_sublist _, rfl⟩
  · exact ⟨ring.queue, List.Sublist.refl _, rfl⟩

theorem receive_kept (inv : InSequence start ingress events) (command : Command)
    (counts : Counts ingress (.receive command)) :
    ∃ next event, step ingress (.receive command) = .ok (next, event) ∧
      InSequence start next (events ++ [event]) := by
  obtain ⟨kept, fewer, queue⟩ := push_queue ingress.ring { ingressSequence := ingress.sequencer.next, command }
  have counted : (ingress.sequencer.next + 1).toInt = ingress.sequencer.next.toInt + 1 := by
    have counter := inv.counter
    simp only [Counts] at counts
    rw [Int64.toInt_add, Int64.toInt_one]
    exact Int.bmod_eq_of_le (by omega) (by omega)
  have later : ingress.sequencer.next < ingress.sequencer.next + 1 := by
    rw [Int64.lt_iff_toInt_lt, counted]
    omega
  refine ⟨_, _, rfl, inv.sound, ?_, ?_, ?_, ?_, fun shard => ⟨?_, ?_⟩, ?_, ?_⟩
  · rw [sequencedItems_append]
    simp only [counted, inv.counter, sequencedItems]
    simp
  · have numbered := inv.numbered
    rw [sequencedItems_append, List.map_append, numbered]
    simp [sequencedItems, List.range_succ, inv.counter]
  · have silent : deliveries [.sequenced { ingressSequence := ingress.sequencer.next, command }] = [] := rfl
    rw [deliveries_append, sequencedItems_append, silent, List.append_nil, queue, ← List.append_assoc]
    exact (((List.Sublist.refl _).append fewer).trans inv.order).append (List.Sublist.refl _)
  · rw [queue, List.pairwise_append]
    refine ⟨inv.grows.sublist fewer, List.pairwise_singleton _ _, fun item member last own => ?_⟩
    rw [List.mem_singleton.mp own]
    exact inv.ahead item (fewer.subset member)
  · exact (inv.behind shard).1.trans later
  · rw [queue]
    intro item member
    rcases List.mem_append.mp member with old | new
    · exact (inv.behind shard).2 item (fewer.subset old)
    · rw [List.mem_singleton.mp new]
      exact (inv.behind shard).1
  · rw [queue]
    intro item member
    rcases List.mem_append.mp member with old | new
    · exact (inv.ahead item (fewer.subset old)).trans later
    · rw [List.mem_singleton.mp new]
      exact later
  · have silent : deliveries [.sequenced { ingressSequence := ingress.sequencer.next, command }] = [] := rfl
    rw [deliveries_append, silent, List.append_nil]
    exact inv.ran

theorem deliver_kept (inv : InSequence start ingress events) :
    ∃ next event, step ingress .deliver = .ok (next, event) ∧ InSequence start next (events ++ [event]) := by
  have silent : ∀ event : IngressEvent, (∀ item, event ≠ .sequenced item) → sequencedItems [event] = [] := by
    intro event other
    cases event with
    | sequenced item => exact absurd rfl (other item)
    | delivered item outcome => rfl
    | idle => rfl
  cases filled : ingress.ring.queue with
  | nil =>
    have popped : ingress.ring.pop = (none, ingress.ring) := by rw [IngressRing.pop, filled]
    refine ⟨ingress, .idle, by rw [step, popped], inv.sound, ?_, ?_, ?_, inv.grows, inv.behind, inv.ahead, ?_⟩
    · rw [sequencedItems_append, silent .idle (by simp), List.append_nil]
      exact inv.counter
    · rw [sequencedItems_append, silent .idle (by simp), List.append_nil]
      exact inv.numbered
    · have none_ : deliveries [.idle] = [] := rfl
      rw [sequencedItems_append, silent .idle (by simp), List.append_nil, deliveries_append, none_, List.append_nil]
      exact inv.order
    · rw [deliveries_append]
      simpa [deliveries] using inv.ran
  | cons item rest =>
    have popped : ingress.ring.pop = (some item, { ingress.ring with queue := rest }) := by
      rw [IngressRing.pop, filled]
    have member : item ∈ ingress.ring.queue := by simp [filled]
    obtain ⟨engine, outcome, called, sound⟩ := apply_sound inv.sound (callOf item)
    obtain ⟨plain, counters⟩ :=
      numbered_call item.command ((inv.behind (shardOf item.command.symbol)).2 item member) called
    have grows := inv.grows
    rw [filled, List.pairwise_cons] at grows
    refine ⟨{ ingress with ring := { ingress.ring with queue := rest }, engine }, .delivered item outcome, ?_, sound,
      ?_, ?_, ?_, grows.2, fun shard => ?_, fun later inside => inv.ahead later (by simp [filled, inside]), ?_⟩
    · simp only [step, popped, called, bind, Except.bind]
    · rw [sequencedItems_append, silent _ (by simp), List.append_nil]
      exact inv.counter
    · rw [sequencedItems_append, silent _ (by simp), List.append_nil]
      exact inv.numbered
    · have order := inv.order
      rw [filled] at order
      rw [sequencedItems_append, silent _ (by simp), List.append_nil, deliveries_append, List.map_append,
        List.append_assoc]
      exact order
    · simp only [counters, remember]
      split
      · exact ⟨inv.ahead item member, fun later inside => grows.1 later inside⟩
      · exact ⟨(inv.behind shard).1, fun later inside => (inv.behind shard).2 later (by simp [filled, inside])⟩
    · rw [deliveries_append, List.map_append, List.map_append]
      exact Runs.run_concat inv.ran plain

/-- The number of commands that come in. -/
def isReceive : IngressMove → Bool
  | .receive _ => true
  | .deliver => false

/-- A move numbers at most one command, and only `receive` does. -/
theorem sequenced_grows {move : IngressMove} {next : Ingress shardCount} {event : IngressEvent}
    (stepped : step ingress move = .ok (next, event)) :
    (sequencedItems [event]).length ≤ if isReceive move then 1 else 0 := by
  cases move with
  | receive command =>
    cases stepped
    simp [sequencedItems, isReceive]
  | deliver =>
    cases popped : ingress.ring.pop with
    | mk taken ring =>
      cases taken with
      | none =>
        simp only [step, popped] at stepped
        cases stepped
        simp [sequencedItems]
      | some item =>
        cases called : ingress.engine.apply (callOf item) with
        | error fault => simp [step, popped, called, bind, Except.bind] at stepped
        | ok result =>
          simp only [step, popped, called, bind, Except.bind] at stepped
          cases stepped
          simp [sequencedItems]

theorem move_kept (inv : InSequence start ingress events) (move : IngressMove) (counts : Counts ingress move) :
    ∃ next event, step ingress move = .ok (next, event) ∧ InSequence start next (events ++ [event]) := by
  cases move with
  | receive command => exact receive_kept inv command counts
  | deliver => exact deliver_kept inv

/-- While fewer than 2^63 - 1 commands come in, the sequencer does not run out. -/
theorem counts_of_few (inv : InSequence start ingress events) (moves : List IngressMove)
    (few : (sequencedItems events).length + moves.countP isReceive < 2 ^ 63 - 1) : Meets step Counts ingress moves := by
  induction moves generalizing ingress events with
  | nil => trivial
  | cons move moves ih =>
    rw [List.countP_cons] at few
    have counter := inv.counter
    have counts : Counts ingress move := by
      cases move with
      | receive command =>
        simp only [Counts]
        simp only [isReceive, ↓reduceIte] at few
        omega
      | deliver => trivial
    obtain ⟨next, event, stepped, kept⟩ := move_kept inv move counts
    have grown := sequenced_grows stepped
    refine ⟨counts, ?_⟩
    simp only [stepped]
    refine ih kept ?_
    rw [sequencedItems_append, List.length_append]
    omega

/-- A new stage: a sequencer at 1, an empty ring and a new engine. -/
def newIngress (limits : RiskLimits) (files : Fin shardCount → Files) (capacity : Nat) : Ingress shardCount where
  ring := { capacity }
  engine := .create limits files

theorem inSequence_new (limits : RiskLimits) (files : Fin shardCount → Files) (capacity : Nat) :
    InSequence (.create limits files) (newIngress limits files capacity) [] where
  sound _ := wellFormed_empty
  counter := rfl
  numbered := rfl
  order := List.Sublist.refl _
  grows := List.Pairwise.nil
  behind _ := ⟨show (0 : Int64) < 1 by decide, by simp [newIngress]⟩
  ahead := by simp [newIngress]
  ran := rfl

/-- A push has room, so it drops nothing. -/
def HasSlot (state : Ingress shardCount) : IngressMove → Prop
  | .receive _ => state.ring.queue.length < state.ring.capacity
  | .deliver => True

/-- A move with room drops nothing. -/
theorem kept_with_room {next : Ingress shardCount} {event : IngressEvent} {move : IngressMove}
    (room : HasSlot ingress move) (stepped : step ingress move = .ok (next, event))
    (all : (deliveries events).map Prod.fst ++ ingress.ring.queue = sequencedItems events) :
    (deliveries (events ++ [event])).map Prod.fst ++ next.ring.queue = sequencedItems (events ++ [event]) := by
  rw [deliveries_append, sequencedItems_append, List.map_append, ← all]
  cases move with
  | receive command =>
    cases stepped
    have notFull : ¬ (ingress.ring.queue.length = ingress.ring.capacity ∧ ingress.ring.queue ≠ []) := by
      intro full
      simp only [HasSlot] at room
      omega
    simp [deliveries, sequencedItems, IngressRing.push, notFull]
  | deliver =>
    cases filled : ingress.ring.queue with
    | nil =>
      simp only [step, IngressRing.pop, filled] at stepped
      cases stepped
      simp [deliveries, sequencedItems, filled]
    | cons item rest =>
      cases called : ingress.engine.apply (callOf item) with
      | error fault => simp [step, IngressRing.pop, filled, called, bind, Except.bind] at stepped
      | ok result =>
        simp only [step, IngressRing.pop, filled, called, bind, Except.bind] at stepped
        cases stepped
        simp [deliveries, sequencedItems]

/-- For every capacity and every order in which fewer than 2^63 - 1 commands come
in and are taken to the engine: the commands are numbered 1, 2, 3 and on; what is
delivered and what is still in the ring are among them, none twice and in that
order, and are all of them if no command comes in while the ring is full; and no
delivered command is refused for its number, since the engine answers each of
them, and ends, as it does for the same commands without numbers. -/
theorem sequenced_commands_are_never_refused (limits : RiskLimits) (files : Fin shardCount → Files) (capacity : Nat)
    (moves : List IngressMove) (few : moves.countP isReceive < 2 ^ 63 - 1) :
    ∃ final events, run step (newIngress limits files capacity) moves = .ok (final, events) ∧
      (sequencedItems events).map (fun item => item.ingressSequence.toInt) =
        (List.range (sequencedItems events).length).map (fun place => (place : Int) + 1) ∧
      ((deliveries events).map Prod.fst ++ final.ring.queue).Sublist (sequencedItems events) ∧
      (Meets step HasSlot (newIngress limits files capacity) moves →
        (deliveries events).map Prod.fst ++ final.ring.queue = sequencedItems events) ∧
      run ShardedMatchingEngine.apply (.create limits files)
        ((deliveries events).map fun made => callWith none made.1.command) =
          .ok (forget final.engine, (deliveries events).map Prod.snd) := by
  have start := inSequence_new limits files capacity
  have counts := counts_of_few start moves (by simpa [sequencedItems] using few)
  obtain ⟨final, events, ran, inv⟩ := Runs.run_history Counts (InSequence (.create limits files))
    (fun _ _ move inv counts => move_kept inv move counts) [] start counts
  rw [List.nil_append] at inv
  refine ⟨final, events, ran, inv.numbered, inv.order, fun room => ?_, inv.ran⟩
  obtain ⟨final', events', ran', -, all⟩ :=
    Runs.run_history (fun state move => Counts state move ∧ HasSlot state move)
    (fun state events => InSequence (.create limits files) state events ∧
      (deliveries events).map Prod.fst ++ state.ring.queue = sequencedItems events)
    (fun state events move ⟨inv, all⟩ ⟨counts, room⟩ => by
      obtain ⟨next, event, stepped, kept⟩ := move_kept inv move counts
      exact ⟨next, event, stepped, kept, kept_with_room room stepped all⟩)
    [] ⟨start, rfl⟩ (Runs.meets_and counts room)
  rw [ran] at ran'
  cases ran'
  simpa using all

/-- A ring of one slot that drops the first of two bids. -/
def twoBids : List IngressMove :=
  [.receive (.add { symbol := ascii "S", orderId := 1, participantId := ascii "A", priceTicks := 100, quantity := 5 }),
    .receive (.add { symbol := ascii "S", orderId := 2, participantId := ascii "A", priceTicks := 101, quantity := 5 }),
    .deliver, .deliver]

theorem two_bids_are_not_refused :
    ∃ final events, run step (newIngress {} (fun _ : Fin 2 => {}) 1) twoBids = .ok (final, events) ∧
      (sequencedItems events).map (fun item => item.ingressSequence.toInt) =
        (List.range (sequencedItems events).length).map (fun place => (place : Int) + 1) ∧
      ((deliveries events).map Prod.fst ++ final.ring.queue).Sublist (sequencedItems events) ∧
      (Meets step HasSlot (newIngress {} (fun _ : Fin 2 => {}) 1) twoBids →
        (deliveries events).map Prod.fst ++ final.ring.queue = sequencedItems events) ∧
      run ShardedMatchingEngine.apply (.create {} fun _ : Fin 2 => {})
        ((deliveries events).map fun made => callWith none made.1.command) =
          .ok (forget final.engine, (deliveries events).map Prod.snd) :=
  sequenced_commands_are_never_refused {} (fun _ => {}) 1 twoBids (by decide)

end Exchange.Sequencing
