import Exchange.PipelineMarket
import Exchange.Sessions

/-! The way of an order from the wire to the market and of the answer back to
`drain`. The I/O thread of the order-entry server calls its handler for every
decoded command, and the handler hands it to `submit` of the threaded engine. -/
namespace Exchange
open Frames Reassembly Sessions PipelineInbound PipelineOutbound PipelineLinear PipelineCapacity PipelineMarket
  ShardTransparency

structure Venue (shardCount : Nat) where
  server : OrderEntryServer := {}
  engine : ThreadedShardedEngine shardCount
  /-- What the handler is still to be called with before the pass is over. -/
  waiting : List Command := []

/-- A step of one thread: of the server, of its handler entering `submit`, or of
the engine behind it, which submits nothing by itself. -/
inductive VenueAction (shardCount : Nat) where
  | server (action : ServerAction)
  | handle
  | engine (action : Action shardCount) (behind : isSubmit action = false)

/-- What a step has done. -/
inductive VenueEvent (shardCount : Nat) where
  | idle
  | served (action : ServerAction) (events : List ServerEvent)
  | moved (shown : Option (Observation shardCount))

namespace Venue

/-- The commands the handler is called with in a pass of the poll loop. -/
def decoded (events : List ServerEvent) : List Command :=
  events.flatMap fun
    | .drained _ _ commands => commands
    | .accepted _ => []

theorem decoded_append (first second : List ServerEvent) :
    decoded (first ++ second) = decoded first ++ decoded second :=
  List.flatMap_append

variable {shardCount : Nat} [NeZero shardCount]

/-- The I/O thread goes on, and can be joined, once the handler has returned
from its last `submit`. -/
def step (venue : Venue shardCount) :
    VenueAction shardCount → Except Fault (Venue shardCount × VenueEvent shardCount)
  | .server action =>
    match venue.waiting, venue.engine.producer, OrderEntryServer.step venue.server action with
    | [], none, .ok (server, events) => .ok ({ venue with server, waiting := decoded events }, .served action events)
    | _, _, _ => .ok (venue, .idle)
  | .handle =>
    match venue.waiting, venue.engine.producer with
    | command :: waiting, none =>
      let (engine, shown) := venue.engine.submit command none
      .ok ({ venue with engine, waiting }, .moved shown)
    | _, _ => .ok (venue, .idle)
  | .engine action _ => do
    let (engine, shown) ← ThreadedShardedEngine.step venue.engine action
    .ok ({ venue with engine }, .moved shown)

/-- The kernel accepts under unused descriptors, and nobody stops the workers. -/
def Regular (venue : Venue shardCount) : VenueAction shardCount → Prop
  | .server action => KernelFresh venue.server action
  | .handle => True
  | .engine action _ => action ≠ .stop

instance (venue : Venue shardCount) : DecidablePred (Regular venue)
  | .server action => inferInstanceAs (Decidable (KernelFresh venue.server action))
  | .handle => isTrue trivial
  | .engine .stop _ => isFalse fun going => going rfl
  | .engine (.submit _ _) _ | .engine .push _ | .engine (.worker _) _ | .engine .drain _ | .engine .collect _
  | .engine .start _ | .engine .join _ => isTrue nofun

def isHandle : VenueAction shardCount → Bool
  | .handle => true
  | _ => false

section
variable (seen : List (VenueEvent shardCount))

/-- What the server has done. -/
def performed : List ServerAction :=
  seen.filterMap fun
    | .served action _ => some action
    | _ => none

def served : List (List ServerEvent) :=
  seen.filterMap fun
    | .served _ events => some events
    | _ => none

/-- What the engine has done. -/
def moved : List (Option (Observation shardCount)) :=
  seen.filterMap fun
    | .moved shown => some shown
    | _ => none

/-- The commands handed over, in order. -/
def handled : List Command := (submitted (moved seen)).map CommandMsg.command

end

/-! ## Both machines in one run -/

variable {start : ThreadedShardedEngine shardCount} {room : Nat} {venue : Venue shardCount}
  {seen : List (VenueEvent shardCount)}

/-- Server and engine have each done a run of their own, and what the one has
decoded the other has been given, or it waits. -/
structure Joined (start : ThreadedShardedEngine shardCount) (room : Nat) (venue : Venue shardCount)
    (seen : List (VenueEvent shardCount)) : Prop where
  roomy : Roomy room venue.engine
  serial : Serial start venue.engine (moved seen)
  outbound : Outbound venue.engine (moved seen)
  fresh : Meets OrderEntryServer.step KernelFresh {} (performed seen)
  ran : run OrderEntryServer.step {} (performed seen) = .ok (venue.server, served seen)
  plain : ∀ msg ∈ submitted (moved seen), msg.ingressSequence = none
  order : handled seen ++ venue.waiting = decoded (served seen).flatten

theorem joined_idle (joined : Joined start room venue seen) : Joined start room venue (seen ++ [.idle]) := by
  have same : moved (seen ++ [.idle]) = moved seen ∧ performed (seen ++ [.idle]) = performed seen ∧
      served (seen ++ [.idle]) = served seen := by
    simp [moved, performed, served]
  obtain ⟨sameMoved, samePerformed, sameServed⟩ := same
  exact {
    roomy := joined.roomy
    serial := by rw [sameMoved]; exact joined.serial
    outbound := by rw [sameMoved]; exact joined.outbound
    fresh := by rw [samePerformed]; exact joined.fresh
    ran := by rw [samePerformed, sameServed]; exact joined.ran
    plain := by rw [sameMoved]; exact joined.plain
    order := by rw [handled, sameMoved, sameServed]; exact joined.order }

theorem joined_served (joined : Joined start room venue seen) {action : ServerAction} {server : OrderEntryServer}
    {events : List ServerEvent} (fresh : KernelFresh venue.server action) (free : venue.waiting = [])
    (stepped : OrderEntryServer.step venue.server action = .ok (server, events)) :
    Joined start room { venue with server, waiting := decoded events } (seen ++ [.served action events]) := by
  have sameMoved : moved (seen ++ [.served action events]) = moved seen := by simp [moved]
  have more : performed (seen ++ [.served action events]) = performed seen ++ [action] := by simp [performed]
  have alsoServed : served (seen ++ [.served action events]) = served seen ++ [events] := by simp [served]
  exact {
    roomy := joined.roomy
    serial := by rw [sameMoved]; exact joined.serial
    outbound := by rw [sameMoved]; exact joined.outbound
    fresh := by
      rw [more]
      refine (Runs.meets_append joined.ran).mpr ⟨joined.fresh, fresh, ?_⟩
      rw [stepped]
      trivial
    ran := by
      rw [more, alsoServed]
      exact Runs.run_concat joined.ran stepped
    plain := by rw [sameMoved]; exact joined.plain
    order := by
      have order := joined.order
      rw [free, List.append_nil] at order
      rw [handled, sameMoved, alsoServed, List.flatten_append, List.flatten_singleton, decoded_append]
      exact congrArg (· ++ decoded events) order }

/-- A step of the engine, whoever takes it. -/
theorem joined_moved (joined : Joined start room venue seen) (few : (submitted (moved seen)).length ≤ room)
    {action : Action shardCount} (going : action ≠ .stop) (waiting : List Command)
    (handed : ∀ engine shown, ThreadedShardedEngine.step venue.engine action = .ok (engine, shown) →
      (∀ msg ∈ submitted [shown], msg.ingressSequence = none) ∧
        (submitted [shown]).map CommandMsg.command ++ waiting = venue.waiting) :
    ∃ engine shown, ThreadedShardedEngine.step venue.engine action = .ok (engine, shown) ∧
      Joined start room { venue with engine, waiting } (seen ++ [.moved shown]) := by
  have keeps := nothingEmptied_of_room joined.roomy joined.serial joined.outbound few action
  obtain ⟨engine, shown, stepped, serial⟩ := serial_kept joined.serial action keeps.1
  obtain ⟨engine', shown', stepped', outbound⟩ := outbound_kept joined.outbound action keeps.2
  rw [stepped] at stepped'
  cases stepped'
  obtain ⟨plain, order⟩ := handed engine shown stepped
  have more : moved (seen ++ [.moved shown]) = moved seen ++ [shown] := by simp [moved]
  have same : performed (seen ++ [.moved shown]) = performed seen ∧
      served (seen ++ [.moved shown]) = served seen := by
    simp [performed, served]
  refine ⟨engine, shown, stepped, ?_⟩
  exact {
    roomy := roomy_kept joined.roomy going stepped
    serial := by rw [more]; exact serial
    outbound := by rw [more]; exact outbound
    fresh := by rw [same.1]; exact joined.fresh
    ran := by rw [same.1, same.2]; exact joined.ran
    plain := by
      intro msg member
      rw [more, submitted_append] at member
      exact (List.mem_append.mp member).elim (joined.plain msg) (plain msg)
    order := by
      rw [handled, more, submitted_append, List.map_append, List.append_assoc, order, same.2]
      exact joined.order }

theorem step_joined (joined : Joined start room venue seen) (few : (submitted (moved seen)).length ≤ room)
    (action : VenueAction shardCount) (regular : Regular venue action) :
    ∃ next shown, step venue action = .ok (next, shown) ∧ Joined start room next (seen ++ [shown]) ∧
      (handled (seen ++ [shown])).length ≤ (handled seen).length + if isHandle action then 1 else 0 := by
  have idle : (handled (seen ++ [.idle])).length ≤ (handled seen).length := by simp [handled, moved]
  have grown (shown : Option (Observation shardCount)) :
      (handled (seen ++ [.moved shown])).length = (handled seen).length + (submitted [shown]).length := by
    simp [handled, moved, submitted]
  cases action with
  | server action =>
    cases waits : venue.waiting with
    | cons command waiting => exact ⟨venue, .idle, by simp only [step, waits], joined_idle joined, by omega⟩
    | nil =>
      cases busy : venue.engine.producer with
      | some message => exact ⟨venue, .idle, by simp only [step, waits, busy], joined_idle joined, by omega⟩
      | none =>
        cases stepped : OrderEntryServer.step venue.server action with
        | error fault => exact fault.elim
        | ok result =>
          refine ⟨{ venue with server := result.1, waiting := decoded result.2 }, .served action result.2,
            by simp only [step, waits, busy, stepped], ?_, ?_⟩
          · exact joined_served joined regular waits stepped
          · simp [handled, moved]
  | handle =>
    cases waits : venue.waiting with
    | nil => exact ⟨venue, .idle, by simp only [step, waits], joined_idle joined, by omega⟩
    | cons command waiting =>
      cases busy : venue.engine.producer with
      | some message => exact ⟨venue, .idle, by simp only [step, waits, busy], joined_idle joined, by omega⟩
      | none =>
        have entered : venue.engine.submit command none = ({ venue.engine with
              nextCorrelation := venue.engine.nextCorrelation + 1
              producer := some (ShardedMatchingEngine.shardOf command.symbol,
                ⟨command, none, venue.engine.nextCorrelation + 1⟩) },
            some (.submitted ⟨command, none, venue.engine.nextCorrelation + 1⟩)) := by
          simp only [ThreadedShardedEngine.submit, busy]
        have going : (.submit command none : Action shardCount) ≠ .stop := by simp
        obtain ⟨engine, shown, stepped, kept⟩ :=
          joined_moved joined few going waiting fun engine shown stepped => by
            have same : venue.engine.submit command none = (engine, shown) := Except.ok.inj stepped
            rw [entered] at same
            cases same
            exact ⟨by simp [submitted], by simp [submitted, waits]⟩
        have same : venue.engine.submit command none = (engine, shown) := Except.ok.inj stepped
        refine ⟨_, .moved shown, by simp only [step, waits, busy, same], kept, ?_⟩
        rw [entered] at same
        cases same
        rw [grown]
        exact Nat.le_refl _
  | engine action behind =>
    have silent {engine : ThreadedShardedEngine shardCount} {shown : Option (Observation shardCount)}
        (stepped : ThreadedShardedEngine.step venue.engine action = .ok (engine, shown)) : submitted [shown] = [] := by
      have grows := submitted_grows stepped
      rw [behind] at grows
      exact List.eq_nil_of_length_eq_zero (Nat.le_zero.mp grows)
    obtain ⟨engine, shown, stepped, kept⟩ := joined_moved joined few regular venue.waiting
      fun engine shown stepped => by
        rw [silent stepped]
        exact ⟨fun msg member => absurd member List.not_mem_nil, rfl⟩
    refine ⟨_, .moved shown, by simp only [step, stepped, bind, Except.bind], kept, ?_⟩
    rw [grown, silent stepped]
    exact Nat.le_refl _

theorem run_joined (joined : Joined start room venue seen) (actions : List (VenueAction shardCount))
    (few : (handled seen).length + actions.countP isHandle ≤ room) (regular : Meets step Regular venue actions) :
    ∃ final later, run step venue actions = .ok (final, later) ∧ Joined start room final (seen ++ later) := by
  induction actions generalizing venue seen with
  | nil => exact ⟨venue, [], rfl, by rwa [List.append_nil]⟩
  | cons action actions ih =>
    have sent : (submitted (moved seen)).length = (handled seen).length := by rw [handled, List.length_map]
    obtain ⟨next, shown, stepped, kept, grown⟩ := step_joined joined (by omega) action regular.1
    have regularLater := regular.2
    simp only [stepped] at regularLater
    rw [List.countP_cons] at few
    obtain ⟨final, later, ran, keptLater⟩ := ih kept (by omega) regularLater
    refine ⟨final, shown :: later, ?_, ?_⟩
    · rw [Runs.run_cons stepped, ran]
      rfl
    · rwa [List.append_assoc, List.singleton_append] at keptLater

theorem joined_start {limits : RiskLimits} {files : Fin shardCount → Files} {capacity : UInt64}
    (created : ThreadedShardedEngine.create limits files capacity = some start) :
    Joined start capacity.toNat { engine := start } [] where
  roomy := roomy_created created
  serial := serial_created created
  outbound := outbound_created created
  fresh := trivial
  ran := rfl
  plain := fun _ member => absurd member List.not_mem_nil
  order := rfl

/-! ## Clients and market -/

/-- A connection: what the server did before the pass that accepted it, this
pass, and the passes since. -/
structure Session where
  before : List ServerAction
  entry : Poll
  fd : Nat
  kernels : List Poll

/-- This is what the server did, and the connection was accepted. -/
structure Session.Within (session : Session) (actions : List ServerAction) : Prop where
  passes : actions = session.before ++ .pass session.entry :: session.kernels.map .pass
  running : ∃ server outputs,
    run OrderEntryServer.step {} session.before = .ok (server, outputs) ∧ server.running = true
  ready : session.entry.ready = true
  accepted : session.fd ∈ session.entry.accepted
  away : ∀ kernel ∈ session.kernels, session.fd ∉ kernel.accepted

/-- What arrived on the connection is a front of the frames of these commands. -/
structure Session.Sends (session : Session) (commands : List Command) (wire : Bytes) : Prop where
  going : ∀ arrival ∈ offered session.fd session.kernels, arrival.endOfStream = false
  encodable : ∀ command ∈ commands, Encodable command
  encoded : encodeAll commands = .ok wire
  arrived : received (offered session.fd session.kernels) <+: wire

/-- What the handler was called with from the connection. -/
def Session.heard (session : Session) (seen : List (VenueEvent shardCount)) : List Command :=
  commandsOn session.fd ((served seen).drop session.before.length).flatten

/-- What the clients send is handed over, each client's commands in their order,
and what `drain` returns are the market's answers to what has been handed over. -/
structure Carries (limits : RiskLimits) (final : Venue shardCount) (seen : List (VenueEvent shardCount)) : Prop where
  order : handled seen ++ final.waiting = decoded (served seen).flatten
  market : ∀ shard, ShowsMarket final.engine (moved seen) (handleAll limits (fun _ => none) (handled seen)) shard
  heard : ∀ session : Session, session.Within (performed seen) →
    (session.heard seen).Sublist (decoded (served seen).flatten) ∧
      ∀ commands wire, session.Sends commands wire → session.heard seen <+: commands ∧
        (received (offered session.fd session.kernels) = wire → session.heard seen = commands)

theorem commandsOn_sublist (fd : Nat) (events : List ServerEvent) :
    (commandsOn fd events).Sublist (decoded events) := by
  induction events with
  | nil => exact .slnil
  | cons event events ih =>
    have own : (commandsOn fd [event]).Sublist (decoded [event]) := by
      cases event with
      | accepted => exact .slnil
      | drained other arrival commands =>
        by_cases here : other = fd
        · simp [commandsOn, decoded, here]
        · simp [commandsOn, here]
    have split := commandsOn_append fd [event] events
    change (commandsOn fd ([event] ++ events)).Sublist (decoded ([event] ++ events))
    rw [split, decoded_append]
    exact own.append ih

/-- A client is heard as if it were served by itself. -/
theorem session_heard (joined : Joined start room venue seen) {session : Session}
    (within_ : session.Within (performed seen)) :
    session.heard seen = (serve {} (offered session.fd session.kernels)).2 := by
  obtain ⟨server, outputs, reached, running⟩ := within_.running
  have fresh := joined.fresh
  have ran := joined.ran
  rw [within_.passes] at fresh ran
  obtain ⟨first, second⟩ := (Runs.meets_append reached).mp fresh
  obtain ⟨server', outputs', reached', sound⟩ := runs_sound first
  rw [reached] at reached'
  cases reached'
  obtain ⟨last, later, ranLater, commands, -⟩ :=
    session_run sound running second within_.ready within_.accepted within_.away
  rw [Runs.run_append, reached] at ran
  simp only [Except.bind, ranLater, Except.map] at ran
  obtain ⟨-, same⟩ := Prod.mk.inj (Except.ok.inj ran)
  have length : outputs.length = session.before.length := Runs.run_length reached
  rw [Session.heard, ← same, ← length, List.drop_left]
  exact commands

/-- The commands that the actions hand over. -/
def handedOver (start : ThreadedShardedEngine shardCount) (actions : List (VenueAction shardCount)) : List CommandMsg :=
  match run step { engine := start } actions with
  | .ok (_, seen) => submitted (moved seen)
  | .error _ => []

/-- Whatever the clients send and however the threads interleave, as long as no
more is handed over than a queue holds, nobody stops the workers, and what is
handed over is orderly: every client's framed commands are handed over in their
order, and `drain` returns the market's answers in the order of handing over. -/
theorem frames_in_answers_out {limits : RiskLimits} {files : Fin shardCount → Files} {capacity : UInt64}
    (created : ThreadedShardedEngine.create limits files capacity = some start)
    (actions : List (VenueAction shardCount))
    (regular : Meets step Regular { engine := start } actions) (few : actions.countP isHandle ≤ capacity.toNat)
    (orderly : Meets ShardedMatchingEngine.apply Orderly (.create limits files)
      ((handedOver start actions).map CommandMsg.call)) :
    ∃ final seen, run step { engine := start } actions = .ok (final, seen) ∧ Carries limits final seen := by
  obtain ⟨final, seen, ran, joined⟩ :=
    run_joined (joined_start created) actions (by simpa [handled, moved, submitted] using few)
    regular
  rw [List.nil_append] at joined
  rw [handedOver, ran] at orderly
  refine ⟨final, seen, ran, joined.order, fun shard => ?_,
    fun session within_ => ⟨?_, fun commands wire sends => ?_⟩⟩
  · exact showsMarket_of_run (created_engine created).1 joined.serial joined.outbound joined.plain orderly shard
  · refine (commandsOn_sublist _ _).trans ?_
    conv_rhs => rw [← List.take_append_drop session.before.length (served seen), List.flatten_append, decoded_append]
    exact List.sublist_append_right _ _
  · obtain ⟨front, whole⟩ := serve_framed sends.going sends.encodable sends.encoded sends.arrived
    rw [session_heard joined within_]
    exact ⟨front, fun all => by rw [whole all]⟩

/-- A client sends a bid in two pieces, and its answer is drained. -/
def bidInTwoPieces : List (VenueAction 2) :=
  let sends (bytes : Bytes) : VenueAction 2 :=
    .server (.pass { arrivals := fun fd => if fd = 5 then some { chunks := [bytes] } else none })
  let works : VenueAction 2 := .engine worker0 rfl
  [.server .start, .engine .start rfl, .server (.pass { accepted := [5] }), sends [1, 0, 0, 0, 31, 1, 1, 1, 1],
    sends [0, 0, 0, 0, 0, 0, 0, 0, 1, 0, 0, 0, 0, 0, 0, 0, 100, 0, 0, 0, 0, 0, 0, 0, 5, 83, 65, 152, 85, 91, 200],
    .handle, .engine .push rfl, works, works, works, works, works, .engine .drain rfl, .engine .collect rfl]

theorem bid_in_two_pieces_is_answered :
    ∃ final seen, run step { engine := twoSlots } bidInTwoPieces = .ok (final, seen) ∧ Carries {} final seen :=
  frames_in_answers_out twoSlots_created bidInTwoPieces (by decide +kernel) (by decide) (by decide +kernel)

end Venue
end Exchange
