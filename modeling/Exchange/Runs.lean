import Mathlib

/-! Runs of a deterministic machine whose steps may fail. An invariant that
every step keeps, and under which no step fails, holds after every run and
every run succeeds. Guards express what is assumed of each command in the
state in which it is issued. -/
namespace Exchange
variable {S C O F : Type}

/-- All commands in order, with every result. The first failure ends the run. -/
def run (step : S → C → Except F (S × O)) : S → List C → Except F (S × List O)
  | state, [] => .ok (state, [])
  | state, command :: commands => do
    let (state, output) ← step state command
    let (state, outputs) ← run step state commands
    .ok (state, output :: outputs)

/-- Every command meets the guard in the state it is issued in. -/
def Meets (step : S → C → Except F (S × O)) (guard : S → C → Prop) : S → List C → Prop
  | _, [] => True
  | state, command :: commands => guard state command ∧
      match step state command with
      | .ok (next, _) => Meets step guard next commands
      | .error _ => True

/-- Guards that can be tested make whole runs testable. -/
instance Meets.decidable (step : S → C → Except F (S × O)) (guard : S → C → Prop)
    [∀ state command, Decidable (guard state command)] :
    ∀ state commands, Decidable (Meets step guard state commands)
  | _, [] => isTrue trivial
  | state, command :: commands =>
    match result : step state command with
    | .ok (next, _) =>
      have := Meets.decidable step guard next commands
      decidable_of_iff (guard state command ∧ Meets step guard next commands) (by simp [Meets, result])
    | .error _ => decidable_of_iff (guard state command) (by simp [Meets, result])

namespace Runs

/-- A computation that succeeds has succeeded in every part. -/
theorem bind_ok_iff {ε α β : Type} {first : Except ε α} {next : α → Except ε β} {result : β} :
    first.bind next = .ok result ↔ ∃ value, first = .ok value ∧ next value = .ok result := by
  cases first <;> simp [Except.bind]

variable {step : S → C → Except F (S × O)} {guard : S → C → Prop} {state : S} {commands : List C}

theorem run_cons {command : C} {next : S} {output : O} (ran : step state command = .ok (next, output)) :
    run step state (command :: commands) =
      (run step next commands).map (fun result => (result.1, output :: result.2)) := by
  simp only [run, ran, bind, Except.bind]
  cases run step next commands <;> rfl

/-- Safety of every run, with the results so far visible to the invariant:
one step lemma is enough. -/
theorem run_history (guard : S → C → Prop) (Inv : S → List O → Prop)
    (kept : ∀ state outputs command, Inv state outputs → guard state command →
      ∃ next output, step state command = .ok (next, output) ∧ Inv next (outputs ++ [output]))
    (history : List O) (start : Inv state history) (meets : Meets step guard state commands) :
    ∃ final outputs, run step state commands = .ok (final, outputs) ∧ Inv final (history ++ outputs) := by
  induction commands generalizing state history with
  | nil => exact ⟨state, [], rfl, by simpa using start⟩
  | cons command commands ih =>
    obtain ⟨next, output, ran, held⟩ := kept state history command start meets.1
    have later := meets.2
    simp only [ran] at later
    obtain ⟨final, outputs, rest, last⟩ := ih _ held later
    refine ⟨final, output :: outputs, ?_, by simpa using last⟩
    rw [run_cons ran, rest]
    rfl

/-- Safety of every run, for an invariant of the state alone. -/
theorem run_invariant (guard : S → C → Prop) (Inv : S → Prop)
    (kept : ∀ state command, Inv state → guard state command →
      ∃ next output, step state command = .ok (next, output) ∧ Inv next)
    (start : Inv state) (meets : Meets step guard state commands) :
    ∃ final outputs, run step state commands = .ok (final, outputs) ∧ Inv final :=
  run_history guard (fun state _ => Inv state) (fun state _ command held => kept state command held)
    [] start meets

/-- What a run costs is paid for by what its commands allow and by what the
state has saved, if every step is. -/
theorem run_amortised {M : Type} [AddCommMonoid M] [Preorder M] [IsOrderedAddMonoid M] (Inv : S → Prop)
    (saved : S → M) (cost : O → M) (allowance : C → M)
    (paid : ∀ state command, Inv state → ∃ next output, step state command = .ok (next, output) ∧ Inv next ∧
      cost output + saved next ≤ saved state + allowance command)
    (start : Inv state) (commands : List C) :
    ∃ final outputs, run step state commands = .ok (final, outputs) ∧ Inv final ∧
      (outputs.map cost).sum + saved final ≤ saved state + (commands.map allowance).sum := by
  induction commands generalizing state with
  | nil => exact ⟨state, [], rfl, start, by simp⟩
  | cons command commands ih =>
    obtain ⟨next, output, ran, held, first⟩ := paid state command start
    obtain ⟨final, outputs, rest, last, later⟩ := ih held
    refine ⟨final, output :: outputs, by rw [run_cons ran, rest]; rfl, last, ?_⟩
    rw [List.map_cons, List.sum_cons, List.map_cons, List.sum_cons]
    calc cost output + (outputs.map cost).sum + saved final
        ≤ cost output + (saved next + (commands.map allowance).sum) := by
          rw [add_assoc]
          exact add_le_add_right later _
      _ ≤ saved state + allowance command + (commands.map allowance).sum := by
          rw [← add_assoc]
          exact add_le_add_left first _
      _ = saved state + (allowance command + (commands.map allowance).sum) := add_assoc ..

theorem meets_of_forall (always : ∀ state command, guard state command) (commands : List C) :
    Meets step guard state commands := by
  induction commands generalizing state with
  | nil => trivial
  | cons command commands ih =>
    refine ⟨always state command, ?_⟩
    cases step state command with
    | error fault => trivial
    | ok result => exact ih

/-- A guard that asks for less. -/
theorem meets_weaken {weaker : S → C → Prop}
    (less : ∀ state command, guard state command → weaker state command)
    (meets : Meets step guard state commands) : Meets step weaker state commands := by
  induction commands generalizing state with
  | nil => trivial
  | cons command commands ih =>
    refine ⟨less state command meets.1, ?_⟩
    have later := meets.2
    cases taken : step state command with
    | error fault => trivial
    | ok result =>
      simp only [taken] at later
      exact ih later

/-- Two guards at once. -/
theorem meets_and {other : S → C → Prop} (first : Meets step guard state commands)
    (second : Meets step other state commands) :
    Meets step (fun state command => guard state command ∧ other state command) state commands := by
  induction commands generalizing state with
  | nil => trivial
  | cons command commands ih =>
    refine ⟨⟨first.1, second.1⟩, ?_⟩
    have later := first.2
    have later' := second.2
    cases taken : step state command with
    | error fault => trivial
    | ok result =>
      simp only [taken] at later later'
      exact ih later later'

/-- A guard that looks at the command alone. -/
theorem meets_of_mem {allowed : C → Prop} (each : ∀ command ∈ commands, allowed command) :
    Meets step (fun _ command => allowed command) state commands := by
  induction commands generalizing state with
  | nil => trivial
  | cons command commands ih =>
    refine ⟨each command (by simp), ?_⟩
    cases step state command with
    | error fault => trivial
    | ok result => exact ih fun later member => each later (List.mem_cons_of_mem _ member)

/-- What every step promises under an invariant that one guard keeps, the
commands of a run under that guard meet. -/
theorem meets_of_invariant {promise : S → C → Prop} (guard : S → C → Prop) (Inv : S → Prop)
    (kept : ∀ state command, Inv state → guard state command → promise state command ∧
      ∃ next output, step state command = .ok (next, output) ∧ Inv next)
    (start : Inv state) (meets : Meets step guard state commands) : Meets step promise state commands := by
  induction commands generalizing state with
  | nil => trivial
  | cons command commands ih =>
    obtain ⟨promised, next, output, ran, held⟩ := kept state command start meets.1
    have later := meets.2
    simp only [ran] at later
    refine ⟨promised, ?_⟩
    simp only [ran]
    exact ih held later

theorem run_append (first second : List C) :
    run step state (first ++ second) = (run step state first).bind fun mid =>
      (run step mid.1 second).map fun final => (final.1, mid.2 ++ final.2) := by
  induction first generalizing state with
  | nil =>
    simp only [List.nil_append, run, Except.bind]
    cases run step state second <;> rfl
  | cons command first ih =>
    cases ran : step state command with
    | error fault => simp only [List.cons_append, run, ran, bind, Except.bind]
    | ok result =>
      rw [List.cons_append, run_cons ran, run_cons ran, ih]
      cases run step result.1 first with
      | error fault => rfl
      | ok mid =>
        simp only [Except.bind, Except.map]
        cases run step mid.1 second <;> rfl

theorem run_concat {command : C} {mid next : S} {outputs : List O} {output : O}
    (ran : run step state commands = .ok (mid, outputs)) (last : step mid command = .ok (next, output)) :
    run step state (commands ++ [command]) = .ok (next, outputs ++ [output]) := by
  rw [run_append, ran]
  simp only [Except.bind]
  rw [run_cons last]
  rfl

theorem meets_front {first second : List C} (meets : Meets step guard state (first ++ second)) :
    Meets step guard state first := by
  induction first generalizing state with
  | nil => trivial
  | cons command first ih =>
    refine ⟨meets.1, ?_⟩
    have later := meets.2
    cases taken : step state command with
    | error fault => trivial
    | ok result =>
      simp only [taken] at later
      exact ih later

theorem meets_append {first second : List C} {mid : S} {outputs : List O}
    (ran : run step state first = .ok (mid, outputs)) :
    Meets step guard state (first ++ second) ↔
      Meets step guard state first ∧ Meets step guard mid second := by
  induction first generalizing state outputs with
  | nil =>
    cases ran
    simp [Meets]
  | cons command first ih =>
    cases taken : step state command with
    | error fault => simp [run, taken, bind, Except.bind] at ran
    | ok result =>
      rw [run_cons taken] at ran
      cases rest : run step result.1 first with
      | error fault => simp [rest, Except.map] at ran
      | ok last =>
        simp only [rest, Except.map, Except.ok.injEq, Prod.mk.injEq] at ran
        simp only [List.cons_append, Meets, taken, and_assoc]
        rw [ih (rest.trans (by rw [← ran.1]))]

/-- Where a guard says exactly when a step of a sound state keeps a property,
the property holds in every state a run reaches exactly when every command
meets the guard. -/
theorem always_iff (Sound Good : S → Prop)
    (exact_ : ∀ state command, Sound state → Good state → ∃ next output,
      step state command = .ok (next, output) ∧ Sound next ∧ (Good next ↔ guard state command))
    (sound : Sound state) (good : Good state) :
    (∀ before, before <+: commands → ∃ final outputs,
      run step state before = .ok (final, outputs) ∧ Good final) ↔ Meets step guard state commands := by
  induction commands generalizing state with
  | nil =>
    refine ⟨fun _ => trivial, fun _ before front => ?_⟩
    rw [List.prefix_nil.mp front]
    exact ⟨state, [], rfl, good⟩
  | cons command commands ih =>
    obtain ⟨next, output, ran, nextSound, keeps⟩ := exact_ state command sound good
    simp only [Meets, ran]
    constructor
    · intro always
      obtain ⟨final, outputs, one, held⟩ := always [command] (by simp)
      rw [run_cons ran] at one
      cases one
      refine ⟨keeps.mp held, (ih nextSound held).mp fun before front => ?_⟩
      obtain ⟨final, outputs, rest, last⟩ := always (command :: before) (by simpa using front)
      rw [run_cons ran] at rest
      cases run_ : run step next before with
      | error fault => simp [run_, Except.map] at rest
      | ok result =>
        simp only [run_, Except.map, Except.ok.injEq, Prod.mk.injEq] at rest
        exact ⟨result.1, result.2, rfl, by rw [rest.1]; exact last⟩
    · rintro ⟨guarded, later⟩ before front
      have held := keeps.mpr guarded
      cases before with
      | nil => exact ⟨state, [], rfl, good⟩
      | cons first before =>
        obtain ⟨rfl, rest⟩ := List.cons_prefix_cons.mp front
        obtain ⟨final, outputs, ran', last⟩ := (ih nextSound held).mpr later before rest
        refine ⟨final, output :: outputs, ?_, last⟩
        rw [run_cons ran, ran']
        rfl

end Runs
end Exchange
