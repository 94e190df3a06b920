import Mathlib

/-! Schedules without end. Where every turn of a helpful action brings a
measure down and no other action undoes it, a schedule that gives the helpful
actions their turn again and again arrives. -/
namespace Exchange.Fairness
open Filter

variable {S C : Type}

/-- The first so many actions of a schedule. -/
def firstOf (schedule : ℕ → C) (count : ℕ) : List C := (List.range count).map schedule

theorem firstOf_succ (schedule : ℕ → C) (count : ℕ) :
    firstOf schedule (count + 1) = firstOf schedule count ++ [schedule count] := by
  simp [firstOf, List.range_succ]

/-- An action has its turn again and again. -/
def Recurs (schedule : ℕ → C) (action : C) : Prop := ∃ᶠ moment in atTop, schedule moment = action

theorem recurs_after {schedule : ℕ → C} {action : C} (recurs : Recurs schedule action) (moment : ℕ) :
    ∃ later ≥ moment, schedule later = action :=
  frequently_atTop.mp recurs moment

/-- One move towards a goal: it is reached, or the situation stays and the phase
goes down, or nothing was done that helps and the same actions help as before. -/
def Moves (situation goal : S → Prop) (helpful : S → C → Prop) (phase : S → ℕ) (state : S) (action : C)
    (next : S) : Prop :=
  goal next ∨ situation next ∧ (phase next < phase state ∨
    phase next = phase state ∧ ¬ helpful state action ∧ ∀ other, helpful state other → helpful next other)

variable {path : ℕ → S} {schedule : ℕ → C} {situation goal : S → Prop} {helpful : S → C → Prop}
  {phase : S → ℕ}

/-- Up to the next turn of a helpful action, the goal is reached or the phase
has gone down. -/
theorem next_turn {moment : ℕ} (here : situation (path moment))
    (moves : ∀ later ≥ moment, situation (path later) →
      Moves situation goal helpful phase (path later) (schedule later) (path (later + 1)))
    {wait : ℕ} (turn : helpful (path moment) (schedule (moment + wait))) :
    ∃ later > moment, goal (path later) ∨ situation (path later) ∧ phase (path later) < phase (path moment) := by
  induction wait generalizing moment with
  | zero =>
    rcases moves moment le_rfl here with reached | ⟨stays, less | ⟨-, missed, -⟩⟩
    · exact ⟨moment + 1, Nat.lt_succ_self _, .inl reached⟩
    · exact ⟨moment + 1, Nat.lt_succ_self _, .inr ⟨stays, less⟩⟩
    · exact absurd turn missed
  | succ wait ih =>
    rcases moves moment le_rfl here with reached | ⟨stays, less | ⟨same, -, helps⟩⟩
    · exact ⟨moment + 1, Nat.lt_succ_self _, .inl reached⟩
    · exact ⟨moment + 1, Nat.lt_succ_self _, .inr ⟨stays, less⟩⟩
    · have later : helpful (path (moment + 1)) (schedule (moment + 1 + wait)) := by
        rw [Nat.add_assoc, Nat.add_comm 1 wait]
        exact helps _ turn
      obtain ⟨last, after, done⟩ := ih stays (fun other after => moves other (by omega)) later
      rw [same] at done
      exact ⟨last, by omega, done⟩

/-- Under a fair schedule a situation leads to the goal. -/
theorem leads_to {moment : ℕ} (here : situation (path moment))
    (fair : ∀ later ≥ moment, situation (path later) → ∃ turn ≥ later, helpful (path later) (schedule turn))
    (moves : ∀ later ≥ moment, situation (path later) →
      Moves situation goal helpful phase (path later) (schedule later) (path (later + 1))) :
    ∃ later > moment, goal (path later) := by
  induction bound : phase (path moment) using Nat.strong_induction_on generalizing moment with
  | _ bound ih =>
    obtain ⟨turn, after, helps⟩ := fair moment le_rfl here
    obtain ⟨wait, rfl⟩ := Nat.exists_eq_add_of_le after
    obtain ⟨later, beyond, reached | ⟨stays, less⟩⟩ := next_turn here moves helps
    · exact ⟨later, beyond, reached⟩
    · obtain ⟨last, past, reached⟩ := ih _ (bound ▸ less) stays
        (fun other after => fair other (by omega)) (fun other after => moves other (by omega)) rfl
      exact ⟨last, by omega, reached⟩

/-- Work that can always be brought down is done at some time. -/
theorem done_of_less {work : ℕ → ℕ} {moment : ℕ}
    (less : ∀ later ≥ moment, 0 < work later → ∃ last > later, work last < work later) :
    ∃ later ≥ moment, work later = 0 := by
  induction bound : work moment using Nat.strong_induction_on generalizing moment with
  | _ bound ih =>
    rcases Nat.eq_zero_or_pos (work moment) with done | positive
    · exact ⟨moment, le_rfl, done⟩
    · obtain ⟨last, after, fewer⟩ := less moment le_rfl positive
      obtain ⟨later, beyond, done⟩ := ih _ (bound ▸ fewer) (fun other after => less other (by omega)) rfl
      exact ⟨later, by omega, done⟩

/-- What every later move keeps holds from then on. -/
theorem holds_on {kept : ℕ → Prop} {moment : ℕ} (here : kept moment)
    (keeps : ∀ later ≥ moment, kept later → kept (later + 1)) : ∀ later ≥ moment, kept later := by
  intro later after
  induction later, after using Nat.le_induction with
  | base => exact here
  | succ later after ih => exact keeps later after ih

end Exchange.Fairness
