import Exchange.Runs

/-! Machines made of parts that run by themselves. A command concerns some of
the parts; each of these takes the step of its own machine and agrees on the
answer, and the others stay as they are. A run is then, part by part, a run of
the part's machine on the commands that concern it, and only the order of these
matters. -/
namespace Exchange
variable {ι S P C O F : Type}

/-- `step` moves each part as `own` does: on the commands that concern it. -/
structure Decomposes (step : S → C → Except F (S × O)) (own : P → C → Except F (P × O))
    (part : S → ι → P) (concerns : ι → C → Bool) : Prop where
  concerned : ∀ {state command next output} (index), step state command = .ok (next, output) →
    concerns index command = true → own (part state index) command = .ok (part next index, output)
  spared : ∀ {state command next output} (index), step state command = .ok (next, output) →
    concerns index command = false → part next index = part state index

/-- What was answered to the commands of one kind. -/
def answersTo (kind : C → Bool) (commands : List C) (outputs : List O) : List O :=
  ((commands.zip outputs).filter fun answered => kind answered.1).map Prod.snd

/-- Pairs whose first and whose second components come from the front of two lists. -/
theorem prefix_of_components {A B : Type} {first second : List (A × B)}
    (left : first.map Prod.fst <+: second.map Prod.fst) (right : first.map Prod.snd <+: second.map Prod.snd) :
    first <+: second := by
  induction first generalizing second with
  | nil => exact List.nil_prefix
  | cons pair first ih =>
    cases second with
    | nil => simp at left
    | cons pair' second =>
      rw [List.map_cons, List.map_cons, List.cons_prefix_cons] at left right
      exact List.cons_prefix_cons.mpr ⟨Prod.ext left.1 right.1, ih left.2 right.2⟩

namespace Runs

variable {step : S → C → Except F (S × O)} {own : P → C → Except F (P × O)} {part : S → ι → P}
  {concerns : ι → C → Bool} {state final : S} {commands : List C} {outputs : List O}

theorem run_length (ran : run step state commands = .ok (final, outputs)) :
    outputs.length = commands.length := by
  induction commands generalizing state outputs with
  | nil =>
    cases ran
    rfl
  | cons command commands ih =>
    cases taken : step state command with
    | error fault => simp [run, taken, bind, Except.bind] at ran
    | ok result =>
      rw [run_cons taken] at ran
      cases rest : run step result.1 commands with
      | error fault => simp [rest, Except.map] at ran
      | ok last =>
        simp only [rest, Except.map, Except.ok.injEq, Prod.mk.injEq] at ran
        rw [← ran.2, List.length_cons, List.length_cons, @ih result.1 last.2 (by rw [rest, ← ran.1])]

/-- The first step of a run that succeeds, and the rest of it. -/
theorem run_cons_inv {command : C} (ran : run step state (command :: commands) = .ok (final, outputs)) :
    ∃ next output later, step state command = .ok (next, output) ∧
      run step next commands = .ok (final, later) ∧ outputs = output :: later := by
  cases taken : step state command with
  | error fault => simp [run, taken, bind, Except.bind] at ran
  | ok result =>
    rw [run_cons taken] at ran
    cases rest : run step result.1 commands with
    | error fault => simp [rest, Except.map] at ran
    | ok last =>
      simp only [rest, Except.map, Except.ok.injEq, Prod.mk.injEq] at ran
      exact ⟨result.1, result.2, last.2, rfl, by rw [rest, ← ran.1], ran.2.symm⟩

/-- A run in two parts. -/
theorem run_append_inv {first second : List C} (ran : run step state (first ++ second) = .ok (final, outputs)) :
    ∃ mid before after, run step state first = .ok (mid, before) ∧ run step mid second = .ok (final, after) ∧
      outputs = before ++ after := by
  induction first generalizing state outputs with
  | nil => exact ⟨state, [], outputs, rfl, ran, rfl⟩
  | cons command first ih =>
    obtain ⟨next, output, later, taken, rest, rfl⟩ := run_cons_inv ran
    obtain ⟨mid, before, after, front, back, rfl⟩ := ih rest
    refine ⟨mid, output :: before, after, ?_, back, rfl⟩
    rw [run_cons taken, front]
    rfl

/-- Part by part, a run is a run of the part's machine. -/
theorem run_part (decomposes : Decomposes step own part concerns) (index : ι)
    (ran : run step state commands = .ok (final, outputs)) :
    run own (part state index) (commands.filter (concerns index)) =
      .ok (part final index, answersTo (concerns index) commands outputs) := by
  induction commands generalizing state outputs with
  | nil =>
    cases ran
    rfl
  | cons command commands ih =>
    obtain ⟨next, output, later, taken, rest, rfl⟩ := run_cons_inv ran
    have rest_ := ih rest
    cases kind : concerns index command with
    | true =>
      rw [List.filter_cons_of_pos kind, run_cons (decomposes.concerned index taken kind), rest_]
      simp [answersTo, kind, Except.map]
    | false =>
      rw [List.filter_cons_of_neg (by simp [kind]), ← decomposes.spared index taken kind, rest_]
      simp [answersTo, kind]

/-- A run that has come less far in one part has given a front of its answers. -/
theorem run_behind (decomposes : Decomposes step own part concerns) {commands' : List C} {final' : S}
    {outputs' : List O} (index : ι)
    (behind : commands.filter (concerns index) <+: commands'.filter (concerns index))
    (ran : run step state commands = .ok (final, outputs))
    (ran' : run step state commands' = .ok (final', outputs')) :
    answersTo (concerns index) commands outputs <+: answersTo (concerns index) commands' outputs' := by
  obtain ⟨ahead, shape⟩ := behind
  have second := run_part decomposes index ran'
  rw [← shape] at second
  obtain ⟨mid, before, after, front, -, whole⟩ := run_append_inv second
  rw [run_part decomposes index ran] at front
  simp only [Except.ok.injEq, Prod.mk.injEq] at front
  rw [whole, ← front.2]
  exact List.prefix_append _ _

end Runs
end Exchange
