import Exchange.Runs
import Exchange.ShardedSteps

/-! Ingress numbers. A shard remembers the highest number it has let through
and refuses every number that is not above it, before anything is logged or
applied. So the numbers that pass only grow, and a call that has been delivered
once, let through or not, is refused whenever it comes again. -/
namespace Exchange.IngressReplay
open EngineInvariant ShardedSteps Runs
open ShardedMatchingEngine (shardOf Call)

variable {shardCount : Nat} {state next : ShardedMatchingEngine shardCount}

/-- Books, indexes, logs and ingress numbers are what they were. -/
structure Untouched (before after : ShardedMatchingEngine shardCount) : Prop where
  books : ∀ shard, (after.engines shard).books = (before.engines shard).books
  index : ∀ shard, (after.engines shard).index = (before.engines shard).index
  wals : after.wals = before.wals
  numbers : after.lastIngressSequence = before.lastIngressSequence

theorem untouched_refl (state : ShardedMatchingEngine shardCount) : Untouched state state :=
  ⟨fun _ => rfl, fun _ => rfl, rfl, rfl⟩

theorem untouched_trans {last : ShardedMatchingEngine shardCount} (first : Untouched state next)
    (second : Untouched next last) : Untouched state last where
  books shard := (second.books shard).trans (first.books shard)
  index shard := (second.index shard).trans (first.index shard)
  wals := second.wals.trans first.wals
  numbers := second.numbers.trans first.numbers

/-- The outcome of a call that is refused for its number. -/
def OutOfOrder (outcome : Outcome) : Prop :=
  ∃ event, outcome = ⟨[event], []⟩ ∧ event.type = .rejected ∧
    payloadStr event.payload .reason = some (ascii "OUT_OF_ORDER_INGRESS")

variable [NeZero shardCount]

/-- What a call hands to `validate_ingress`: symbol, order id and number. -/
def ingressOf : Call → Option (Bytes × Int64 × Option Int64)
  | .add cmd number => some (cmd.symbol, cmd.orderId, number)
  | .cancel cmd number => some (cmd.symbol, cmd.orderId, number)
  | .replace cmd number => some (cmd.symbol, cmd.orderId, number)
  | .snapshotAll => none

/-- The symbol and the number of a sequenced command. -/
def sequenced (call : Call) : Option (Bytes × Int64) :=
  match ingressOf call with
  | some (symbol, _, some number) => some (symbol, number)
  | _ => none

/-- The rejection a call meets at `validate_ingress`, if it meets one. -/
def ingressCheck (state : ShardedMatchingEngine shardCount) (call : Call) : Option ExecEvent :=
  (ingressOf call).bind fun (symbol, orderId, number) =>
    (state.validateIngress (shardOf symbol) number symbol orderId).2

/-- The number of a sequenced command that gets past the check of this shard. -/
def passedNumber (state : ShardedMatchingEngine shardCount) (shard : Fin shardCount) (call : Call) :
    Option Int64 :=
  match sequenced call with
  | some (symbol, number) => if shardOf symbol = shard ∧ ingressCheck state call = none then some number else none
  | none => none

/-- The numbers that pass on this shard in a run, in order. -/
def passedNumbers (shard : Fin shardCount) : ShardedMatchingEngine shardCount → List Call → List Int64
  | _, [] => []
  | state, call :: calls => (passedNumber state shard call).toList ++
      match state.apply call with
      | .ok (next, _) => passedNumbers shard next calls
      | .error _ => []

/-! ## One call -/

/-- A sequenced call is refused exactly when its number is not above the last one. -/
theorem ingressCheck_none_iff (state : ShardedMatchingEngine shardCount) {call : Call} {symbol : Bytes}
    {number : Int64} (named : sequenced call = some (symbol, number)) :
    ingressCheck state call = none ↔ state.lastIngressSequence (shardOf symbol) < number := by
  unfold sequenced at named
  split at named
  · rename_i orderId number' given
    cases named
    by_cases stale : number ≤ state.lastIngressSequence (shardOf symbol)
    · simp [ingressCheck, given, ShardedMatchingEngine.validateIngress, stale]
    · simp [ingressCheck, given, ShardedMatchingEngine.validateIngress, stale, not_le.mp stale]
  · cases named

/-- The last numbers once a call is done. -/
def counted (state : ShardedMatchingEngine shardCount) (call : Call) (shard : Fin shardCount) : Int64 :=
  (passedNumber state shard call).getD (state.lastIngressSequence shard)

/-- `validate_ingress` writes the number it lets through and nothing else. -/
theorem validateIngress_numbers (state : ShardedMatchingEngine shardCount) (call : Call) {symbol : Bytes}
    {orderId : Int64} {number : Option Int64} (given : ingressOf call = some (symbol, orderId, number)) :
    (state.validateIngress (shardOf symbol) number symbol orderId).1.lastIngressSequence = counted state call := by
  funext shard
  cases number with
  | none => simp [ShardedMatchingEngine.validateIngress, counted, passedNumber, sequenced, given]
  | some number =>
    have named : sequenced call = some (symbol, number) := by simp [sequenced, given]
    have passes := ingressCheck_none_iff state named
    by_cases stale : number ≤ state.lastIngressSequence (shardOf symbol)
    · have refused : ¬ ingressCheck state call = none := by
        rw [passes]
        exact not_lt.mpr stale
      simp [ShardedMatchingEngine.validateIngress, stale, counted, passedNumber, named, refused,
        ShardedMatchingEngine.setEngine]
    · have passed : ingressCheck state call = none := passes.mpr (not_le.mp stale)
      by_cases here : shard = shardOf symbol
      · simp [ShardedMatchingEngine.validateIngress, stale, counted, passedNumber, named, passed, here]
      · simp [ShardedMatchingEngine.validateIngress, stale, counted, passedNumber, named, passed, here,
          Ne.symm here]

/-- After the check no call touches the numbers. -/
theorem apply_numbers {call : Call} {outcome : Outcome} (ran : state.apply call = .ok (next, outcome)) :
    next.lastIngressSequence = counted state call := by
  cases call with
  | add cmd number =>
    have numbers := validateIngress_numbers state (.add cmd number) rfl
    rw [ShardedMatchingEngine.apply, ShardedMatchingEngine.add] at ran
    generalize state.validateIngress (shardOf cmd.symbol) number cmd.symbol cmd.orderId = checked at ran numbers
    obtain ⟨mid, rejected⟩ := checked
    rw [← numbers]
    cases rejected with
    | some rejected =>
      cases ran
      rfl
    | none =>
      cases reason : checkAdd mid.limits cmd with
      | some reason =>
        simp only [reason] at ran
        cases ran
        rfl
      | none =>
        simp only [reason] at ran
        obtain ⟨engine, added, rest⟩ := bind_ok_iff.mp ran
        cases rest
        rfl
  | cancel cmd number =>
    have numbers := validateIngress_numbers state (.cancel cmd number) rfl
    rw [ShardedMatchingEngine.apply, ShardedMatchingEngine.cancel] at ran
    generalize state.validateIngress (shardOf cmd.symbol) number cmd.symbol cmd.orderId = checked at ran numbers
    obtain ⟨mid, rejected⟩ := checked
    rw [← numbers]
    cases rejected with
    | some rejected =>
      cases ran
      rfl
    | none =>
      obtain ⟨engine, added, rest⟩ := bind_ok_iff.mp ran
      cases rest
      rfl
  | replace cmd number =>
    have numbers := validateIngress_numbers state (.replace cmd number) rfl
    rw [ShardedMatchingEngine.apply, ShardedMatchingEngine.replace] at ran
    generalize state.validateIngress (shardOf cmd.symbol) number cmd.symbol cmd.orderId = checked at ran numbers
    obtain ⟨mid, rejected⟩ := checked
    rw [← numbers]
    cases rejected with
    | some rejected =>
      cases ran
      rfl
    | none =>
      obtain ⟨engine, added, rest⟩ := bind_ok_iff.mp ran
      cases rest
      rfl
  | snapshotAll =>
    cases ran
    rfl

/-- A refused call answers with its rejection and leaves everything as it is. -/
theorem apply_refused {call : Call} {rejected : ExecEvent} (refused : ingressCheck state call = some rejected) :
    ∃ next, state.apply call = .ok (next, ⟨[rejected], []⟩) ∧ Untouched state next ∧
      OutOfOrder ⟨[rejected], []⟩ := by
  obtain ⟨⟨symbol, orderId, number⟩, given, checked⟩ := Option.bind_eq_some_iff.mp refused
  simp only at checked
  cases number with
  | none => simp [ShardedMatchingEngine.validateIngress] at checked
  | some number =>
    by_cases stale : number ≤ state.lastIngressSequence (shardOf symbol)
    · have result : state.validateIngress (shardOf symbol) (some number) symbol orderId =
          (state.setEngine (shardOf symbol)
            ((state.engines (shardOf symbol)).reject symbol orderId (ascii "OUT_OF_ORDER_INGRESS")).1,
            some ((state.engines (shardOf symbol)).reject symbol orderId (ascii "OUT_OF_ORDER_INGRESS")).2) := by
        rw [ShardedMatchingEngine.validateIngress, if_pos stale]
      rw [result] at checked
      cases checked
      refine ⟨state.setEngine (shardOf symbol)
        ((state.engines (shardOf symbol)).reject symbol orderId (ascii "OUT_OF_ORDER_INGRESS")).1, ?_, ?_,
        _, rfl, rfl, rfl⟩
      · cases call with
        | add cmd number' =>
          cases given
          rw [ShardedMatchingEngine.apply, ShardedMatchingEngine.add, result]
        | cancel cmd number' =>
          cases given
          rw [ShardedMatchingEngine.apply, ShardedMatchingEngine.cancel, result]
        | replace cmd number' =>
          cases given
          rw [ShardedMatchingEngine.apply, ShardedMatchingEngine.replace, result]
        | snapshotAll => cases given
      · refine ⟨fun shard => ?_, fun shard => ?_, rfl, rfl⟩
        · simp only [ShardedMatchingEngine.setEngine]
          split
          · rename_i here
            rw [here]
            rfl
          · rfl
        · simp only [ShardedMatchingEngine.setEngine]
          split
          · rename_i here
            rw [here]
            rfl
          · rfl
    · simp [ShardedMatchingEngine.validateIngress, stale] at checked

/-! ## Runs -/

theorem passedNumber_above {call : Call} {shard : Fin shardCount} {number : Int64}
    (passed : passedNumber state shard call = some number) : state.lastIngressSequence shard < number := by
  unfold passedNumber at passed
  split at passed
  · rename_i symbol given named
    simp only [Option.ite_none_right_eq_some, Option.some.injEq] at passed
    obtain ⟨⟨rfl, unopposed⟩, rfl⟩ := passed
    exact (ingressCheck_none_iff _ named).mp unopposed
  · cases passed

/-- The last number of a shard never falls. -/
theorem counted_grows (state : ShardedMatchingEngine shardCount) (call : Call) (shard : Fin shardCount) :
    state.lastIngressSequence shard ≤ counted state call shard := by
  unfold counted
  cases passed : passedNumber state shard call with
  | none => exact le_refl _
  | some number => exact (passedNumber_above passed).le

/-- Once delivered, a number is not above its shard's last one. -/
theorem counted_delivered (state : ShardedMatchingEngine shardCount) {call : Call} {symbol : Bytes} {number : Int64}
    (named : sequenced call = some (symbol, number)) : number ≤ counted state call (shardOf symbol) := by
  have passes := ingressCheck_none_iff state named
  by_cases fresh : state.lastIngressSequence (shardOf symbol) < number
  · simp [counted, passedNumber, named, passes.mpr fresh]
  · exact (not_lt.mp fresh).trans (counted_grows state call _)

/-- The numbers that pass in a run are above the shard's last one and grow. -/
theorem passedNumbers_grow (shard : Fin shardCount) (calls : List Call) :
    (∀ number ∈ passedNumbers shard state calls, state.lastIngressSequence shard < number) ∧
      (passedNumbers shard state calls).Pairwise (· < ·) := by
  induction calls generalizing state with
  | nil => simp [passedNumbers]
  | cons call calls ih =>
    rw [passedNumbers]
    cases ran : state.apply call with
    | error fault =>
      simp only [List.append_nil]
      cases passed : passedNumber state shard call with
      | none => simp
      | some number => simpa using passedNumber_above passed
    | ok result =>
      have numbers := congrFun (apply_numbers ran) shard
      obtain ⟨above, sorted⟩ := @ih result.1
      rw [numbers, counted] at above
      cases passed : passedNumber state shard call with
      | none =>
        simp only [passed, Option.getD_none] at above
        exact ⟨above, sorted⟩
      | some number =>
        simp only [passed, Option.getD_some] at above
        have first := passedNumber_above passed
        simp only [Option.toList_some, List.singleton_append, List.forall_mem_cons, List.pairwise_cons]
        exact ⟨⟨first, fun later member => first.trans (above later member)⟩, above, sorted⟩

/-- After a run every delivered number is at or below its shard's last one. -/
theorem run_delivered {calls : List Call} {outcomes : List Outcome} {final : ShardedMatchingEngine shardCount}
    (ran : run ShardedMatchingEngine.apply state calls = .ok (final, outcomes)) :
    (∀ shard, state.lastIngressSequence shard ≤ final.lastIngressSequence shard) ∧
      ∀ call ∈ calls, ∀ symbol number, sequenced call = some (symbol, number) →
        number ≤ final.lastIngressSequence (shardOf symbol) := by
  induction calls generalizing state outcomes with
  | nil =>
    cases ran
    exact ⟨fun _ => le_refl _, by simp⟩
  | cons call calls ih =>
    obtain ⟨⟨next, outcome⟩, stepped, rest⟩ := bind_ok_iff.mp ran
    obtain ⟨⟨last, later⟩, ranRest, same⟩ := bind_ok_iff.mp rest
    cases same
    obtain ⟨grown, delivered⟩ := ih ranRest
    have numbers := apply_numbers stepped
    refine ⟨fun shard => ?_, fun made member symbol number named => ?_⟩
    · have first := counted_grows state call shard
      rw [← numbers] at first
      exact first.trans (grown shard)
    · rcases List.mem_cons.mp member with rfl | rest
      · have first := counted_delivered state named
        rw [← numbers] at first
        exact first.trans (grown _)
      · exact delivered made rest symbol number named

/-- Calls whose numbers are not above the last ones are all refused. -/
theorem run_refused (calls : List Call)
    (stale : ∀ call ∈ calls, ∃ symbol number, sequenced call = some (symbol, number) ∧
      number ≤ state.lastIngressSequence (shardOf symbol)) :
    ∃ final outcomes, run ShardedMatchingEngine.apply state calls = .ok (final, outcomes) ∧
      Untouched state final ∧ ∀ outcome ∈ outcomes, OutOfOrder outcome := by
  induction calls generalizing state with
  | nil => exact ⟨state, [], rfl, untouched_refl state, by simp⟩
  | cons call calls ih =>
    obtain ⟨symbol, number, named, low⟩ := stale call (by simp)
    obtain ⟨rejected, refused⟩ : ∃ rejected, ingressCheck state call = some rejected := by
      refine Option.ne_none_iff_exists'.mp fun passed => ?_
      exact absurd ((ingressCheck_none_iff _ named).mp passed) (not_lt.mpr low)
    obtain ⟨next, stepped, same, answered⟩ := apply_refused refused
    have again : ∀ later ∈ calls, ∃ symbol number, sequenced later = some (symbol, number) ∧
        number ≤ next.lastIngressSequence (shardOf symbol) := by
      intro later member
      rw [same.numbers]
      exact stale later (List.mem_cons_of_mem _ member)
    obtain ⟨final, outcomes, ran, rest, answers⟩ := ih again
    refine ⟨final, _, ?_, untouched_trans same rest, List.forall_mem_cons.mpr ⟨answered, answers⟩⟩
    rw [run_cons stepped, ran]
    rfl

/-- What ingress numbers promise after a run of calls. -/
structure RejectsReplays (start final : ShardedMatchingEngine shardCount) (calls : List Call) : Prop where
  /-- On every shard the numbers that passed are strictly increasing. -/
  increasing : ∀ shard, (passedNumbers shard start calls).Pairwise (· < ·)
  /-- A refused call, whichever it is, changes nothing. -/
  refused : ∀ call rejected, ingressCheck final call = some rejected →
    ∃ next, final.apply call = .ok (next, ⟨[rejected], []⟩) ∧ Untouched final next ∧
      OutOfOrder ⟨[rejected], []⟩
  /-- Sequenced calls that were delivered before are refused, all of them, in any order. -/
  redelivered : ∀ again : List Call, (∀ call ∈ again, call ∈ calls ∧ (sequenced call).isSome) →
    ∃ last outcomes, run ShardedMatchingEngine.apply final again = .ok (last, outcomes) ∧
      Untouched final last ∧ ∀ outcome ∈ outcomes, OutOfOrder outcome

theorem rejectsReplays_of_run {calls : List Call} {outcomes : List Outcome}
    {final : ShardedMatchingEngine shardCount}
    (ran : run ShardedMatchingEngine.apply state calls = .ok (final, outcomes)) :
    RejectsReplays state final calls where
  increasing shard := (passedNumbers_grow shard calls).2
  refused call rejected refused := apply_refused refused
  redelivered again before := by
    refine run_refused again fun call member => ?_
    obtain ⟨delivered, numbered⟩ := before call member
    obtain ⟨⟨symbol, number⟩, named⟩ := Option.isSome_iff_exists.mp numbered
    exact ⟨symbol, number, named, (run_delivered ran).2 call delivered symbol number named⟩

/-- Every run of calls, with any numbers in any order or with none, on a new
engine over any directory, succeeds and leaves an engine that refuses what it
has seen. -/
theorem every_run_rejects_replays (limits : RiskLimits) (files : Fin shardCount → Files) (calls : List Call) :
    ∃ final outcomes, run ShardedMatchingEngine.apply (ShardedMatchingEngine.create limits files) calls =
        .ok (final, outcomes) ∧
      RejectsReplays (ShardedMatchingEngine.create limits files) final calls := by
  have start : ∀ shard, WellFormed ((ShardedMatchingEngine.create limits files).engines shard) :=
    fun _ => wellFormed_empty
  obtain ⟨final, outcomes, ran, -⟩ := run_invariant (fun _ _ => True)
    (fun state : ShardedMatchingEngine shardCount => ∀ shard, WellFormed (state.engines shard))
    (fun _ call sound _ => apply_sound sound call) start (meets_of_forall (fun _ _ => trivial) calls)
  exact ⟨final, outcomes, ran, rejectsReplays_of_run ran⟩

/-- Numbers with a gap, one of them again, a stale and a negative one, and calls
without a number. -/
def numberedCalls : List Call :=
  [.add { symbol := ascii "S", orderId := 1, participantId := ascii "A", priceTicks := 100, quantity := 5 } (some 3),
    .add { symbol := ascii "T", orderId := 2, participantId := ascii "B", priceTicks := 99, quantity := 5 } none,
    .cancel { symbol := ascii "S", orderId := 1 } (some 3), .cancel { symbol := ascii "S", orderId := 1 } (some 7),
    .replace { symbol := ascii "T", orderId := 2, newOrderId := 4, newPriceTicks := 98, newQuantity := 3 } (some (-1)),
    .cancel { symbol := ascii "T", orderId := 2 } none]

theorem numbered_calls_reject_replays :
    ∃ final outcomes, run ShardedMatchingEngine.apply
        (ShardedMatchingEngine.create {} (fun _ : Fin 2 => {})) numberedCalls = .ok (final, outcomes) ∧
      RejectsReplays (ShardedMatchingEngine.create {} (fun _ : Fin 2 => {})) final numberedCalls :=
  every_run_rejects_replays {} (fun _ => {}) numberedCalls

end Exchange.IngressReplay
