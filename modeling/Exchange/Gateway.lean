import Exchange.Types

/-! The ingress ring of `gateway.hpp` against the deque it mirrors. A push on a
full ring drops the oldest entry first, and the test for that asks for an entry
to drop, so a ring of capacity zero drops nothing and grows. -/
namespace Exchange

structure SequencedCommand where
  ingressSequence : Int64 := 0
  command : Command
  deriving DecidableEq

structure IngressRing where
  capacity : Nat := 4096
  queue : List SequencedCommand := []
  deriving DecidableEq

namespace IngressRing

def push (ring : IngressRing) (item : SequencedCommand) : IngressRing :=
  let queue := if ring.queue.length = ring.capacity ∧ ring.queue ≠ [] then ring.queue.tail else ring.queue
  { ring with queue := queue ++ [item] }

/-- `pop`: the item, if there is one, and the ring without it. -/
def pop (ring : IngressRing) : Option SequencedCommand × IngressRing :=
  match ring.queue with
  | [] => (none, ring)
  | item :: rest => (some item, { ring with queue := rest })

def size (ring : IngressRing) : Nat := ring.queue.length

/-- One call from outside. -/
inductive Call where
  | push (item : SequencedCommand)
  | pop
  deriving DecidableEq

def Call.pushed : Call → Option SequencedCommand
  | .push item => some item
  | .pop => none

def apply (ring : IngressRing) : Call → Option SequencedCommand × IngressRing
  | .push item => (none, ring.push item)
  | .pop => ring.pop

end IngressRing

structure Sequencer where
  next : Int64 := 1
  deriving DecidableEq

/-- `assign`: the command with the next number. -/
def Sequencer.assign (sequencer : Sequencer) (command : Command) : SequencedCommand × Sequencer :=
  ({ ingressSequence := sequencer.next, command }, { next := sequencer.next + 1 })

/-- `deque(maxlen=capacity)`: what is appended pushes out the front. -/
def boundedDeque (capacity : Nat) (queue : List SequencedCommand) :
    IngressRing.Call → Option SequencedCommand × List SequencedCommand
  | .push item =>
    let queue := queue ++ [item]
    (none, queue.drop (queue.length - capacity))
  | .pop => (queue.head?, queue.tail)

namespace Gateway
open IngressRing

/-- All calls in order: what was popped, and the state at the end. -/
def after {S : Type} (step : S → Call → Option SequencedCommand × S) (start : S) (calls : List Call) :
    List SequencedCommand × S :=
  calls.foldl (fun past call => (past.1 ++ (step past.2 call).1.toList, (step past.2 call).2)) ([], start)

/-- After the calls the ring has popped and holds what the deque has popped
and holds, within the capacity and in the order of the pushes. -/
structure Agrees (capacity : Nat) (calls : List Call) : Prop where
  popped : (after apply { capacity } calls).1 = (after (boundedDeque capacity) [] calls).1
  contents : (after apply { capacity } calls).2.queue = (after (boundedDeque capacity) [] calls).2
  bounded : (after apply { capacity } calls).2.size ≤ capacity
  ordered : ((after apply { capacity } calls).1 ++ (after apply { capacity } calls).2.queue).Sublist
    (calls.filterMap Call.pushed)

/-- So it is at every moment of the run. -/
def Mirrors (capacity : Nat) (calls : List Call) : Prop := ∀ front, front <+: calls → Agrees capacity front

/-- The ring is not of capacity zero, or nothing is pushed. -/
def HasRoom (capacity : Nat) (calls : List Call) : Prop := capacity ≠ 0 ∨ ∀ call ∈ calls, call = .pop

theorem after_concat {S : Type} (step : S → Call → Option SequencedCommand × S) (start : S) (calls : List Call)
    (call : Call) : after step start (calls ++ [call]) =
      ((after step start calls).1 ++ (step (after step start calls).2 call).1.toList,
        (step (after step start calls).2 call).2) := by
  simp [after]

theorem apply_pop (ring : IngressRing) :
    ring.apply .pop = (ring.queue.head?, { ring with queue := ring.queue.tail }) := by
  cases ring with
  | mk capacity queue => cases queue <;> rfl

theorem apply_capacity (ring : IngressRing) (call : Call) : (ring.apply call).2.capacity = ring.capacity := by
  cases call with
  | push item => rfl
  | pop => rw [apply_pop]

theorem after_capacity (capacity : Nat) (calls : List Call) :
    (after apply { capacity } calls).2.capacity = capacity := by
  induction calls using List.reverseRecOn with
  | nil => rfl
  | append_singleton calls call ih => rw [after_concat, apply_capacity, ih]

/-- A push keeps a ring with room for an entry within its capacity, and the
ring holds what the deque then holds. -/
theorem push_agrees (ring : IngressRing) (room : ring.capacity ≠ 0) (bounded : ring.size ≤ ring.capacity)
    (item : SequencedCommand) :
    (ring.push item).queue = (boundedDeque ring.capacity ring.queue (.push item)).2 ∧
      (ring.push item).size ≤ ring.capacity := by
  unfold IngressRing.size at bounded ⊢
  simp only [IngressRing.push, boundedDeque]
  by_cases full : ring.queue.length = ring.capacity
  · have filled : ring.queue ≠ [] := by
      rintro empty
      simp [empty] at full
      omega
    have one : (ring.queue ++ [item]).length - ring.capacity = 1 := by
      simp [full]
    rw [if_pos ⟨full, filled⟩, one, List.drop_one, List.tail_append_of_ne_nil filled]
    refine ⟨rfl, ?_⟩
    rw [List.length_append, List.length_tail, List.length_singleton]
    omega
  · have none_ : (ring.queue ++ [item]).length - ring.capacity = 0 := by
      simp only [List.length_append, List.length_singleton]
      omega
    rw [if_neg fun both => full both.1, none_, List.drop_zero]
    refine ⟨rfl, ?_⟩
    rw [List.length_append, List.length_singleton]
    omega

/-- One call takes the oldest entries away and appends what it pushes. -/
theorem apply_ordered (ring : IngressRing) (call : Call) :
    ((ring.apply call).1.toList ++ (ring.apply call).2.queue).Sublist (ring.queue ++ call.pushed.toList) := by
  cases call with
  | push item =>
    simp only [IngressRing.apply, IngressRing.push, Call.pushed, Option.toList_none, List.nil_append,
      Option.toList_some]
    refine List.Sublist.append_right ?_ [item]
    split
    · exact List.tail_sublist _
    · exact List.Sublist.refl _
  | pop =>
    rw [apply_pop]
    cases ring.queue <;> simp [Call.pushed]

theorem agrees_nil (capacity : Nat) : Agrees capacity [] :=
  ⟨rfl, rfl, Nat.zero_le _, List.Sublist.refl _⟩

theorem agrees_step {capacity : Nat} {calls : List Call} (agrees : Agrees capacity calls) {call : Call}
    (allowed : capacity ≠ 0 ∨ call = .pop) : Agrees capacity (calls ++ [call]) := by
  have held := after_capacity capacity calls
  have ordered : ((after apply { capacity } (calls ++ [call])).1 ++
      (after apply { capacity } (calls ++ [call])).2.queue).Sublist ((calls ++ [call]).filterMap Call.pushed) := by
    rw [after_concat, List.filterMap_append, List.append_assoc]
    refine (List.Sublist.append_left (apply_ordered _ call) _).trans ?_
    rw [← List.append_assoc]
    refine agrees.ordered.append ?_
    cases call <;> simp [Call.pushed]
  cases call with
  | push item =>
    have room := allowed.resolve_right (by simp)
    have pushed := push_agrees (after apply { capacity } calls).2 (by rwa [held])
      (by rw [held]; exact agrees.bounded) item
    rw [held, agrees.contents] at pushed
    refine ⟨?_, ?_, ?_, ordered⟩
    · simp [after_concat, IngressRing.apply, boundedDeque, agrees.popped]
    · rw [after_concat, after_concat]
      exact pushed.1
    · rw [after_concat]
      exact pushed.2
  | pop =>
    refine ⟨?_, ?_, ?_, ordered⟩
    · simp only [after_concat, apply_pop, boundedDeque, agrees.popped, agrees.contents]
    · simp only [after_concat, apply_pop, boundedDeque, agrees.contents]
    · have less := agrees.bounded
      simp only [after_concat, apply_pop, IngressRing.size, List.length_tail] at less ⊢
      omega

theorem agrees_run {capacity : Nat} {calls : List Call} (room : HasRoom capacity calls) : Agrees capacity calls := by
  induction calls using List.reverseRecOn with
  | nil => exact agrees_nil capacity
  | append_singleton calls call ih =>
    refine agrees_step (ih ?_) ?_
    · exact room.imp_right fun pops earlier member => pops earlier (List.mem_append_left _ member)
    · exact room.imp_right fun pops => pops call (by simp)

/-- The ring is the bounded deque, in every run, exactly when it has a capacity
or nothing is pushed. -/
theorem mirrors_iff (capacity : Nat) (calls : List Call) : Mirrors capacity calls ↔ HasRoom capacity calls := by
  constructor
  · intro mirrors
    by_contra fails
    simp only [HasRoom, not_or, not_not, not_forall] at fails
    obtain ⟨rfl, call, member, pushes⟩ := fails
    obtain ⟨before, behind, rfl⟩ := List.append_of_mem member
    cases call with
    | pop => exact pushes rfl
    | push item =>
      -- Right after a push there is an entry, one more than the capacity.
      have agrees := mirrors (before ++ [.push item]) ⟨behind, by simp⟩
      have bounded := agrees.bounded
      rw [after_concat] at bounded
      simp [IngressRing.apply, IngressRing.push, IngressRing.size] at bounded
  · intro room front ahead
    exact agrees_run (room.imp_right fun pops call member => pops call (ahead.subset member))

/-- A ring of capacity zero holds what is pushed. -/
theorem zero_capacity_grows : ¬ ∀ capacity calls, Mirrors capacity calls := by
  intro always
  have agrees := always 0 [.push { command := .cancel { symbol := [] } }] _ List.prefix_rfl
  exact absurd agrees.bounded (by decide)

end Gateway
end Exchange
