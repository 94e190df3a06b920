import Exchange.Twins

/-! Event numbers. Every command numbers its events consecutively, starting
behind the engine's counter, and leaves the counter at the last of them. Twins
therefore answer every run of commands with the same events and trades, their
numbers apart by what the counters were apart at the start. -/
namespace Exchange.EventNumbers
open EngineSteps EngineInvariant Twins

/-- The same outcome, its events numbered from elsewhere. -/
def renumber (gap : Int) (outcome : Outcome) : Outcome :=
  ⟨outcome.events.map fun event => { event with sequence := event.sequence + gap }, outcome.trades⟩

variable {engine first second next next' : MatchingEngine} {command : Command} {outcome outcome' : Outcome}

theorem numbered_shift (symbol : Bytes) (sequence gap : Int) (reports : List (EventType × Payload)) :
    numbered symbol (sequence + gap) reports =
      (numbered symbol sequence reports).map fun event => { event with sequence := event.sequence + gap } := by
  induction reports generalizing sequence with
  | nil => rfl
  | cons report rest ih =>
    have start : sequence + gap + 1 = sequence + 1 + gap := by omega
    rw [numbered, numbered, List.map_cons, start, ih]

theorem mem_numbered_bounds {symbol : Bytes} {sequence : Int} {reports : List (EventType × Payload)}
    {event : ExecEvent} (member : event ∈ numbered symbol sequence reports) :
    sequence < event.sequence ∧ event.sequence ≤ sequence + reports.length := by
  induction reports generalizing sequence with
  | nil => cases member
  | cons report rest ih =>
    rw [numbered] at member
    rw [List.length_cons]
    rcases List.mem_cons.mp member with rfl | later
    · dsimp only
      omega
    · have bounds := ih later
      omega

/-- The reports of an add, and the counter it leaves. -/
theorem add_numbered (wf : WellFormed engine) {cmd : AddOrder} (ran : engine.add cmd = .ok (next, outcome)) :
    ∃ reports, outcome.events = numbered cmd.symbol engine.sequence reports ∧
      next.sequence = engine.sequence + reports.length := by
  cases added_of_ran wf ran with
  | refused refuses =>
    exact ⟨_, rfl, rfl⟩
  | accepted accepts mid matched =>
    refine ⟨_, rfl, ?_⟩
    simp only [settled, addReports, matched.sequence, List.length_cons, List.length_append, List.length_map]
    push_cast
    omega

/-- The reports of a command, and the counter it leaves. -/
theorem apply_numbered (wf : WellFormed engine) (ran : engine.apply command = .ok (next, outcome)) :
    ∃ reports, outcome.events = numbered command.symbol engine.sequence reports ∧
      next.sequence = engine.sequence + reports.length := by
  cases applied_of_ran wf ran with
  | add cmd ran => exact add_numbered wf ran
  | cancelUnknown cmd missing => exact ⟨_, rfl, rfl⟩
  | cancelKnown cmd loc order entry taken => exact ⟨_, rfl, taken.sequence⟩
  | replaceUnknown cmd missing => exact ⟨_, rfl, rfl⟩
  | replaceKnown cmd loc order mid added entry taken ranAdd =>
    obtain ⟨reports, events, sequence⟩ := add_numbered taken.wellFormed ranAdd
    refine ⟨(.cancelled, [(.orderId, .int cmd.orderId), (.remaining, .int order.remaining)]) :: reports, ?_, ?_⟩
    · rw [events, taken.sequence]
      rfl
    · rw [sequence, taken.sequence, List.length_cons]
      push_cast
      omega

/-- What a command emits lies behind the old counter and up to the new one. -/
theorem apply_bounds (wf : WellFormed engine) (ran : engine.apply command = .ok (next, outcome)) :
    engine.sequence ≤ next.sequence ∧ ∀ event ∈ outcome.events,
      event.symbol = command.symbol ∧ engine.sequence < event.sequence ∧ event.sequence ≤ next.sequence := by
  obtain ⟨reports, events, sequence⟩ := apply_numbered wf ran
  refine ⟨by omega, fun event member => ?_⟩
  rw [events] at member
  have bounds := mem_numbered_bounds member
  exact ⟨(mem_numbered member).1, bounds.1, by omega⟩

/-- Everything a run emits lies behind the counter it starts with. -/
theorem run_bounds (wf : WellFormed engine) {commands : List Command} {outcomes : List Outcome}
    (ran : run MatchingEngine.apply engine commands = .ok (next, outcomes)) :
    ∀ outcome ∈ outcomes, ∀ event ∈ outcome.events, engine.sequence < event.sequence := by
  induction commands generalizing engine outcomes with
  | nil =>
    cases ran
    simp
  | cons command commands ih =>
    obtain ⟨mid, outcome, taken, midWf⟩ := apply_wellFormed wf command
    have bounds := apply_bounds wf taken
    rw [Runs.run_cons taken] at ran
    cases rest : run MatchingEngine.apply mid commands with
    | error fault => simp [rest, Except.map] at ran
    | ok result =>
      rw [rest] at ran
      cases ran
      intro held member event inside
      rcases List.mem_cons.mp member with rfl | later
      · exact (bounds.2 event inside).2.1
      · exact bounds.1.trans_lt (ih midWf rest held later event inside)

/-- Twins answer a command alike, up to where their counters were. -/
theorem twins_apply (twins : Twins first second) (wf : WellFormed first) (wf' : WellFormed second)
    (ran : first.apply command = .ok (next, outcome)) (ran' : second.apply command = .ok (next', outcome')) :
    Twins next next' ∧ outcome = renumber (first.sequence - second.sequence) outcome' ∧
      next.sequence - next'.sequence = first.sequence - second.sequence := by
  obtain ⟨after, same⟩ := twins.apply wf wf' ran ran'
  obtain ⟨reports, events, sequence⟩ := apply_numbered wf ran
  obtain ⟨reports', events', sequence'⟩ := apply_numbered wf' ran'
  have said := same.events
  rw [events, events', said_numbered, said_numbered] at said
  have agree : reports = reports' := by
    refine List.map_injective_iff.mpr ?_ said
    intro report other equal
    simp only [Prod.mk.injEq, true_and] at equal
    exact Prod.ext equal.1 equal.2
  subst agree
  refine ⟨after, ?_, by omega⟩
  have start : first.sequence = second.sequence + (first.sequence - second.sequence) := by omega
  rw [start, numbered_shift, ← events'] at events
  obtain ⟨_, trades⟩ := outcome
  cases events
  rw [renumber, ← same.trades]

/-- Twins answer every run of commands alike, up to where their counters were. -/
theorem twins_run (twins : Twins first second) (wf : WellFormed first) (wf' : WellFormed second)
    (commands : List Command) :
    ∃ next next' outcomes, run MatchingEngine.apply second commands = .ok (next', outcomes) ∧
      run MatchingEngine.apply first commands =
        .ok (next, outcomes.map (renumber (first.sequence - second.sequence))) ∧ Twins next next' := by
  induction commands generalizing first second with
  | nil => exact ⟨first, second, [], rfl, rfl, twins⟩
  | cons command commands ih =>
    obtain ⟨mid, outcome, ran, midWf⟩ := apply_wellFormed wf command
    obtain ⟨mid', outcome', ran', midWf'⟩ := apply_wellFormed wf' command
    obtain ⟨after, alike, gap⟩ := twins_apply twins wf wf' ran ran'
    obtain ⟨next, next', outcomes, rest', rest, last⟩ := ih after midWf midWf'
    refine ⟨next, next', outcome' :: outcomes, ?_, ?_, last⟩
    · rw [Runs.run_cons ran', rest']
      rfl
    · rw [Runs.run_cons ran, rest, gap, alike]
      rfl

end Exchange.EventNumbers
