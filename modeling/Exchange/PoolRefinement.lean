import Exchange.PoolMemory

/-! The pool in memory answers as the pool whose free list is a list of names.
What `::operator new` gives is named by the number of the request that it is
given for, so the requests alone decide which address a name stands for. -/
namespace Exchange

/-! ## The list of names -/

namespace ObjectPool
open PoolResource

/-- The pool once a single object of this type has been requested. -/
def settled (pool : PoolResource) (type : Layout) : PoolResource :=
  if pool.block = 0 then { pool with block := blockSize type.bytes type.align, align := type.align } else pool

/-- The free blocks a request finds, those of a new chunk if there were none. -/
def available (pool : PoolResource) (new : Option Nat) : List Block :=
  if pool.free = [] then (new.elim [] chunkSlots).reverse else pool.free

variable {pool : PoolResource} {type : Layout} {n : UInt64} {new : Option Nat}

theorem pop_eq (pool : PoolResource) (new : Option Nat) :
    pool.pop new =
      ({ pool with
        free := (available pool new).tail
        chunks := pool.chunks ++ if pool.free = [] then new.toList else [] }, (available pool new).head?) := by
  obtain ⟨block, align, free, chunks⟩ := pool
  cases free with
  | cons first rest => simp [pop, available]
  | nil =>
    cases new with
    | none => simp [pop, available]
    | some chunk =>
      have grown : PoolResource.grow ⟨block, align, [], chunks⟩ chunk =
          ⟨block, align, (chunkSlots chunk).reverse, chunks ++ [chunk]⟩ := by
        simp only [grow, chunkSlots, List.foldl_flip_cons_eq_append, List.append_nil]
      simp only [pop, grown, available, if_true, Option.elim, Option.toList]

theorem allocate_taken (takes : Takes (settled pool type) type 1) :
    PoolAllocator.allocate pool type 1 new = (settled pool type).pop new := by
  rw [PoolAllocator.allocate, if_neg (not_ne_iff.mpr rfl), allocate]
  rw [settled] at takes ⊢
  split
  · rfl
  · rename_i set
    rw [if_neg set] at takes
    exact if_neg fun other => other.elim (absurd takes.2.2.1) (absurd takes.2.2.2)

theorem allocate_whole (refused : ¬ Takes pool type n) (unset : pool.block = 0 → n ≠ 1) :
    PoolAllocator.allocate pool type n new = (pool, new.map .whole) := by
  rw [PoolAllocator.allocate]
  split
  · rfl
  · rename_i single
    have one := not_ne_iff.mp single
    rw [allocate, if_neg fun none => unset none one]
    refine if_pos ?_
    by_contra same
    rw [not_or, not_ne_iff, not_ne_iff] at same
    exact refused ⟨one, fun none => unset none one, same⟩

variable {p : Block}

theorem deallocate_taken (takes : Takes pool type n) :
    PoolAllocator.deallocate pool type p n = ({ pool with free := p :: pool.free }, .pool) := by
  obtain ⟨one, set, size, align⟩ := takes
  rw [PoolAllocator.deallocate, if_neg (not_ne_iff.mpr one), deallocate, if_neg]
  exact fun other => other.elim set fun other => other.elim (absurd size) (absurd align)

theorem deallocate_whole (refused : ¬ Takes pool type n) :
    PoolAllocator.deallocate pool type p n = (pool, .operatorNew) := by
  rw [PoolAllocator.deallocate]
  split
  · rfl
  · rename_i one
    refine if_pos ?_
    by_contra same
    rw [not_or, not_or, not_ne_iff, not_ne_iff] at same
    exact refused ⟨not_ne_iff.mp one, same⟩

end ObjectPool

namespace LinkedPool
open ByteMemory (Chain)
open PoolResource (kBlocksPerChunk chunkSlots)
open ObjectPool (Loan Memory)

variable {world next : World} {memory : Memory} {place : Nat → UInt64} {block : UInt64} {type : ObjectType}
  {n : UInt64}

/-! ## Names and addresses -/

/-- Where a block lies: a chunk, or a block of its own, is where `::operator new` put it. -/
def addressOf (place : Nat → UInt64) (block : UInt64) : Block → UInt64
  | .slot chunk i => place chunk + UInt64.ofNat i * block
  | .whole name => place name

def Call.isRequest : Call → Bool
  | .allocate .. | .deallocate .. => true
  | .write .. | .elsewhere .. => false

def Reply.isAnswer : Reply → Bool
  | .handed .. | .returned _ => true
  | .wrote => false

/-- What the request of this number got, if it had to ask for memory. -/
def placeOf (calls : List Call) (name : Nat) : UInt64 :=
  match (calls.filter Call.isRequest)[name]? with
  | some (.allocate _ _ (some address)) => address
  | _ => 0

/-- The size of all slots, which the first request for a single object sets. -/
def blockOf : List Call → UInt64
  | [] => 0
  | .allocate type n _ :: calls => if n = 1 then type.need else blockOf calls
  | _ :: calls => blockOf calls

/-- The same request. -/
def SameCall (address : Block → UInt64) : Call → ObjectPool.Call → Prop
  | .allocate type n new, .allocate layout m granted => layout = type.layout ∧ m = n ∧ granted = new.isSome
  | .deallocate p type n, .deallocate loan => p = address loan.block ∧ loan.type = type.layout ∧ loan.n = n
  | _, _ => False

/-- The same answer. -/
def SameReply (address : Block → UInt64) : Reply → ObjectPool.Reply → Prop
  | .handed block _, .handed p => block = p.map address
  | .returned deleted, .returned p source =>
    deleted.map Prod.fst = match source with
      | .pool => none
      | .operatorNew => some (address p)
  | _, _ => False

def Lies (address : Block → UInt64) (held : Holding) (loan : Loan) : Prop :=
  held.address = address loan.block ∧ loan.type = held.type.layout ∧ loan.n = held.n

/-- The same pool, with addresses for names. -/
structure Shows (place : Nat → UInt64) (size : UInt64) (world : World) (memory : Memory) : Prop where
  block : memory.pool.block = world.pool.block
  align : memory.pool.align = world.pool.align
  chunks : memory.pool.chunks.map place = world.pool.chunks
  free : Chain world.bytes world.pool.free (memory.pool.free.map (addressOf place size))
  live : List.Forall₂ (Lies (addressOf place size)) world.live memory.live

/-- All that is kept on both sides. -/
structure Linked (place : Nat → UInt64) (block : UInt64) (world : World) (memory : Memory) : Prop where
  shows : Shows place block world memory
  holds : Holds world (memory.pool.free.map (addressOf place block))
  kept : ObjectPool.Kept memory
  sized : world.pool.block ≠ 0 → world.pool.block = block

/-! ## Steps -/

theorem slots_named {pool : LinkedPool} {name : Nat} (sized : pool.block = block) :
    (chunkSlots name).map (addressOf place block) = slotsOf pool (place name) := by
  subst sized
  rw [chunkSlots, slotsOf, List.map_map]
  rfl

theorem available_named {pool : LinkedPool} (listed : PoolResource) {name : Nat} {new : Option UInt64}
    (sized : pool.block = block) (named : ∀ address, new = some address → place name = address) :
    (ObjectPool.available listed (new.map fun _ => name)).map (addressOf place block) =
      available pool (listed.free.map (addressOf place block)) new := by
  rw [ObjectPool.available, available]
  by_cases empty : listed.free = []
  · rw [if_pos empty, if_pos (List.map_eq_nil_iff.mpr empty), List.map_reverse]
    cases new with
    | none => rfl
    | some address =>
      rw [Option.map_some, Option.elim_some, Option.elim_some, slots_named sized, named address rfl]
  · rw [if_neg empty, if_neg fun none => empty (List.map_eq_nil_iff.mp none)]

theorem pop_pool (pool : LinkedPool) (bytes : Nat → UInt8) (new : Option UInt64) :
    (pool.pop bytes new).pool.block = pool.block ∧ (pool.pop bytes new).pool.align = pool.align ∧
      (pool.pop bytes new).pool.chunks = pool.chunks ++ if pool.free = 0 then new.toList else [] := by
  unfold pop
  split
  · cases new with
    | none => simp
    | some chunk => simp only [grow_eq, Option.toList, and_self]
  · simp

theorem live_granted (live : List.Forall₂ (Lies (addressOf place block)) world.live memory.live) {grant : Grant}
    {p : Option Block} (same : grant.block = p.map (addressOf place block)) :
    List.Forall₂ (Lies (addressOf place block)) (world.granted type n grant).live
      ((p.map fun block => (⟨block, type.layout, n⟩ : Loan)).toList ++ memory.live) := by
  rw [World.granted, same]
  cases p with
  | none => exact live
  | some p => exact .cons ⟨rfl, rfl, rfl⟩ live

theorem takes_iff (shows : Shows place block world memory) {held : Holding} {loan : Loan}
    (lies : Lies (addressOf place block) held loan) :
    ObjectPool.Takes memory.pool loan.type loan.n ↔ Pooled world.pool held := by
  obtain ⟨-, type, n⟩ := lies
  rw [ObjectPool.Takes, Pooled, shows.block, shows.align, type, n]
  rfl

theorem suits_iff (shows : Shows place block world memory) :
    ObjectPool.Takes memory.pool type.layout n ↔ n = 1 ∧ Suits world.pool type := by
  rw [ObjectPool.Takes, Suits, shows.block, shows.align]
  rfl

section
variable (linked : Linked place block world memory)
include linked

theorem free_iff : world.pool.free = 0 ↔ memory.pool.free = [] :=
  linked.holds.2.free.head_eq_zero.trans List.map_eq_nil_iff

/-- The first request sets both sizes. -/
theorem linked_settled (type : ObjectType) (first : world.pool.block = 0 → type.need = block) :
    (settled world.pool type).block = block ∧ Linked place block { world with pool := settled world.pool type }
      { memory with pool := ObjectPool.settled memory.pool type.layout } := by
  obtain ⟨shows, holds, kept, sized⟩ := linked
  have settledHolds := holds_settled holds type
  rw [settled] at settledHolds ⊢
  rw [ObjectPool.settled, shows.block]
  split
  · rename_i unset
    rw [if_pos unset] at settledHolds
    have listed := ObjectPool.kept_settled kept { memory.pool with
      block := type.need, align := type.align } rfl rfl (.inl ⟨shows.block.trans unset, type.layout.fits⟩)
    exact ⟨first unset, ⟨rfl, rfl, shows.chunks, shows.free, shows.live⟩, settledHolds, listed,
      fun _ => first unset⟩
  · rename_i set
    exact ⟨sized set, shows, holds, kept, sized⟩

/-- Both take the first of the blocks that are free. -/
theorem linked_popped (sized : world.pool.block = block) (suits : Suits world.pool type) {new : Option UInt64}
    (fresh : ∀ given ∈ (world.pool.pop world.bytes new).given, Fresh world.given given)
    (named : ∀ address, new = some address → place memory.calls = address) {listed : PoolResource}
    {p : Option Block}
    (popped : memory.pool.pop (new.map fun _ => memory.calls) = (listed, p)) (calls : Nat) :
    (world.pool.pop world.bytes new).block = p.map (addressOf place block) ∧
      Shows place block (world.granted type 1 (world.pool.pop world.bytes new))
        ⟨listed, (p.map fun block => (⟨block, type.layout, 1⟩ : Loan)).toList ++ memory.live, calls⟩ ∧
      Holds (world.granted type 1 (world.pool.pop world.bytes new)) (listed.free.map (addressOf place block)) := by
  have found := available_named memory.pool sized named
  obtain ⟨handed, after⟩ := holds_popped linked.holds suits new fresh
  obtain ⟨size, align, chunks⟩ := pop_pool world.pool world.bytes new
  rw [ObjectPool.pop_eq] at popped
  cases popped
  rw [← found] at handed after
  rw [List.head?_map] at handed
  rw [← List.map_tail] at after
  refine ⟨handed, ⟨linked.shows.block.trans size.symm, linked.shows.align.trans align.symm, ?_, after.2.free,
    live_granted linked.shows.live handed⟩, after⟩
  rw [World.granted, chunks, List.map_append, linked.shows.chunks]
  simp only [free_iff linked]
  split
  · cases new with
    | none => rfl
    | some address => exact congrArg (world.pool.chunks ++ [·]) (named address rfl)
  · rfl

/-- Nothing but the free blocks and those in use has changed. -/
theorem linked_moved {after : Memory} {free : UInt64} {blocks : List Block}
    (pool : next.pool = { world.pool with free })
    (listed : after.pool = { memory.pool with free := blocks })
    (live : List.Forall₂ (Lies (addressOf place block)) next.live after.live)
    (holds : Holds next (blocks.map (addressOf place block))) (kept : ObjectPool.Kept after) :
    Linked place block next after := by
  have same : after.pool.free.map (addressOf place block) = blocks.map (addressOf place block) := by rw [listed]
  rw [← same] at holds
  refine ⟨⟨?_, ?_, ?_, holds.2.free, live⟩, holds, kept, ?_⟩
  · rw [listed, pool]
    exact linked.shows.block
  · rw [listed, pool]
    exact linked.shows.align
  · rw [listed, pool]
    exact linked.shows.chunks
  · rw [pool]
    exact linked.sized

/-- A request is answered with the same block. -/
theorem linked_allocated {new : Option UInt64} (allowed : Allowed world (.allocate type n new))
    (named : ∀ address, new = some address → place memory.calls = address)
    (first : world.pool.block = 0 → n = 1 → type.need = block) :
    ∃ after p, ObjectPool.step memory (.allocate type.layout n new.isSome) = .ok (after, .handed p) ∧
      (PoolAllocator.allocate world.pool world.bytes type n new).block = p.map (addressOf place block) ∧
      Linked place block (world.granted type n (PoolAllocator.allocate world.pool world.bytes type n new)) after ∧
      after.calls = memory.calls + 1 := by
  obtain ⟨bounded, fresh⟩ := allowed
  have granted : (if new.isSome then some memory.calls else none) = new.map fun _ => memory.calls := by
    cases new <;> rfl
  cases result : Exchange.PoolAllocator.allocate memory.pool type.layout n
      (if new.isSome then some memory.calls else none) with
  | mk listed p =>
    have kept := ObjectPool.kept_requested linked.kept result
    refine ⟨⟨listed, (p.map fun block => (⟨block, type.layout, n⟩ : Loan)).toList ++ memory.live,
      memory.calls + 1⟩, p,
      by simp only [ObjectPool.step, result], ?_⟩
    rw [granted] at result
    obtain ⟨rfl, suits, does⟩ | ⟨whole, unset, does⟩ := allocate_cases world.pool world.bytes type n new
    · obtain ⟨sized, settled⟩ := linked_settled linked type fun unset => first unset rfl
      have takes := (suits_iff settled.shows).mpr ⟨rfl, suits⟩
      rw [ObjectPool.allocate_taken takes] at result
      rw [does] at fresh ⊢
      obtain ⟨handed, shows, holds⟩ := linked_popped settled sized suits fresh named result (memory.calls + 1)
      exact ⟨handed, ⟨shows, holds, kept, fun _ => (pop_pool _ _ new).1.trans sized⟩, rfl⟩
    · have refused : ¬ ObjectPool.Takes memory.pool type.layout n := fun takes =>
        (suits_iff linked.shows).mp takes |>.elim whole
      rw [ObjectPool.allocate_whole refused fun none => unset (linked.shows.block.symm.trans none)] at result
      cases result
      rw [does] at fresh ⊢
      have handed : new = ((new.map fun _ => memory.calls).map Block.whole).map (addressOf place block) := by
        cases new with
        | none => rfl
        | some address => exact congrArg some (named address rfl).symm
      have shows := linked.shows
      exact ⟨handed, ⟨⟨shows.block, shows.align, shows.chunks, shows.free, live_granted shows.live handed⟩,
        holds_fallback linked.holds whole unset bounded new fresh, kept, linked.sized⟩, rfl⟩

end

/-- What is taken out of two lists that belong together, belongs together. -/
theorem erased_alike {α β : Type} [DecidableEq β] {R : α → β → Prop} {p : α → Bool} {xs : List α}
    {ys : List β}
    (alike : List.Forall₂ R xs ys) (distinct : ys.Nodup) (some : ∃ x ∈ xs, p x) :
    ∃ x ∈ xs, p x ∧ ∃ y ∈ ys, R x y ∧ List.Forall₂ R (xs.eraseP p) (ys.erase y) := by
  induction alike with
  | nil =>
    obtain ⟨x, member, -⟩ := some
    exact absurd member List.not_mem_nil
  | @cons x y xs ys first rest ih =>
    obtain ⟨fresh, distinct⟩ := List.nodup_cons.mp distinct
    by_cases here : p x
    · refine ⟨x, List.mem_cons_self .., here, y, List.mem_cons_self .., first, ?_⟩
      rw [List.eraseP_cons_of_pos here, List.erase_cons_head]
      exact rest
    · have later : ∃ x ∈ xs, p x := by
        obtain ⟨found, member, holds⟩ := some
        rcases List.mem_cons.mp member with rfl | member
        · exact absurd holds here
        · exact ⟨found, member, holds⟩
      obtain ⟨other, member, holds, own, inside, same, erased⟩ := ih distinct later
      refine ⟨other, List.mem_cons_of_mem _ member, holds, own, List.mem_cons_of_mem _ inside, same, ?_⟩
      have different : y ≠ own := by
        rintro rfl
        exact fresh inside
      rw [List.eraseP_cons_of_neg here, List.erase_cons_tail (by simpa using different)]
      exact .cons first erased

/-- What is returned is the same block, and goes to the same place. -/
theorem linked_returned (linked : Linked place block world memory) {address : UInt64}
    (allowed : Allowed world (.deallocate address type n)) :
    ∃ next reply loan after, step world (.deallocate address type n) = .ok (next, reply) ∧ loan ∈ memory.live ∧
      SameCall (addressOf place block) (.deallocate address type n) (.deallocate loan) ∧
      ObjectPool.step memory (.deallocate loan) = .ok (after, .returned loan.block loan.block.source) ∧
      SameReply (addressOf place block) reply (.returned loan.block loan.block.source) ∧
      Linked place block next after ∧ after.calls = memory.calls + 1 ∧ next.pool.block = world.pool.block := by
  obtain ⟨held, used, rfl, rfl, rfl⟩ := allowed
  obtain ⟨other, also, here, loan, owned, lies, erased⟩ := erased_alike
    (p := fun other => other.address = held.address) linked.shows.live (ObjectPool.blocks_nodup linked.kept).of_map
    ⟨held, used, decide_eq_true rfl⟩
  obtain rfl := same_holding linked.holds.1 used also (of_decide_eq_true here)
  obtain ⟨after, ran, kept⟩ := ObjectPool.kept_returned linked.kept owned
  by_cases pooled : Pooled world.pool other
  · have takes := (takes_iff linked.shows lies).mpr pooled
    obtain ⟨next, went, pool, live, holds⟩ := holds_pushed linked.holds used pooled
    have source := (linked.kept.source loan owned).mpr takes
    refine ⟨next, _, loan, after, went, owned, lies, ran, by rw [source]; rfl, ?_⟩
    simp only [ObjectPool.step, ObjectPool.deallocate_taken takes, Except.ok.injEq, Prod.mk.injEq] at ran
    obtain ⟨rfl, -⟩ := ran
    rw [lies.1] at holds
    exact ⟨linked_moved linked pool rfl (live ▸ erased) holds kept, rfl, by rw [pool]⟩
  · have refused := mt (takes_iff linked.shows lies).mp pooled
    obtain ⟨next, went, pool, live, holds⟩ := holds_deleted linked.holds used pooled
    have source : loan.block.source = .operatorNew := by
      cases source : loan.block.source with
      | operatorNew => rfl
      | pool => exact absurd ((linked.kept.source loan owned).mp source) refused
    refine ⟨next, _, loan, after, went, owned, lies, ran, by rw [source]; exact congrArg some lies.1, ?_⟩
    simp only [ObjectPool.step, ObjectPool.deallocate_whole refused, Except.ok.injEq, Prod.mk.injEq] at ran
    obtain ⟨rfl, -⟩ := ran
    exact ⟨linked_moved linked pool rfl (live ▸ erased) holds kept, rfl, by rw [pool]⟩

/-! ## Runs -/

theorem placeOf_request {call : Call} {calls : List Call} (request : call.isRequest) (i : Nat) :
    placeOf (call :: calls) (i + 1) = placeOf calls i := by
  rw [placeOf, List.filter_cons_of_pos request, List.getElem?_cons_succ, placeOf]

theorem placeOf_other {call : Call} {calls : List Call} (other : ¬ call.isRequest) :
    placeOf (call :: calls) = placeOf calls := by
  funext i
  rw [placeOf, List.filter_cons_of_neg other, placeOf]

theorem unset_after {pool : LinkedPool} {bytes : Nat → UInt8} {new : Option UInt64}
    (unset : (PoolAllocator.allocate pool bytes type n new).pool.block = 0) : pool.block = 0 ∧ n ≠ 1 := by
  obtain ⟨-, suits, does⟩ | ⟨-, several, does⟩ := allocate_cases pool bytes type n new
  · rw [does, (pop_pool _ _ new).1] at unset
    exact absurd unset suits.1
  · rw [does] at unset
    exact ⟨unset, several unset⟩

theorem answer_same {address : Block → UInt64} {reply : Reply} {answer : ObjectPool.Reply}
    (same : SameReply address reply answer) : reply.isAnswer := by
  cases reply with
  | handed => rfl
  | returned => rfl
  | wrote => exact same.elim

theorem linked_request (linked : Linked place block world memory) {call : Call} {calls : List Call}
    (request : call.isRequest) (allowed : Allowed world call)
    (named : place memory.calls = placeOf (call :: calls) 0)
    (sized : world.pool.block = 0 → blockOf (call :: calls) = block) :
    ∃ next reply asked after answer, step world call = .ok (next, reply) ∧ ObjectPool.Owned memory asked ∧
      SameCall (addressOf place block) call asked ∧ ObjectPool.step memory asked = .ok (after, answer) ∧
      SameReply (addressOf place block) reply answer ∧ Linked place block next after ∧
      after.calls = memory.calls + 1 ∧
      (next.pool.block = 0 → blockOf calls = block) := by
  cases call with
  | write => cases request
  | elsewhere => cases request
  | allocate type n new =>
    have here : ∀ address, new = some address → place memory.calls = address := by
      rintro address rfl
      exact named
    have first : world.pool.block = 0 → n = 1 → type.need = block := fun unset one =>
      (if_pos one).symm.trans (sized unset)
    obtain ⟨after, p, ran, same, linked, counted⟩ := linked_allocated linked allowed here first
    refine ⟨_, _, .allocate type.layout n new.isSome, after, _, rfl, trivial, ⟨rfl, rfl, rfl⟩, ran, same, linked,
      counted,
      fun unset => ?_⟩
    obtain ⟨before, several⟩ := unset_after unset
    exact (if_neg several).symm.trans (sized before)
  | deallocate address type n =>
    obtain ⟨next, reply, loan, after, went, owned, lies, ran, same, linked, counted, kept⟩ :=
      linked_returned linked allowed
    refine ⟨next, reply, .deallocate loan, after, _, went, owned, lies, ran, same, linked, counted, fun unset => ?_⟩
    exact sized (kept.symm.trans unset)

/-- Nobody who writes into memory of its own changes the pool. -/
theorem linked_written (linked : Linked place block world memory) {call : Call} (other : ¬ call.isRequest)
    (allowed : Allowed world call) :
    ∃ next, step world call = .ok (next, .wrote) ∧ Linked place block next memory ∧ next.pool = world.pool := by
  cases call with
  | allocate => exact absurd rfl other
  | deallocate => exact absurd rfl other
  | write address offset byte =>
    obtain ⟨next, ran, pool, live, holds⟩ := holds_written linked.holds byte allowed
    refine ⟨next, ran, linked_moved linked pool rfl ?_ holds linked.kept, pool⟩
    rw [live, List.forall₂_map_left_iff]
    refine linked.shows.live.imp fun held loan lies => ?_
    split
    · exact lies
    · exact lies
  | elsewhere address byte =>
    obtain ⟨next, ran, pool, live, holds⟩ := holds_elsewhere linked.holds byte allowed
    exact ⟨next, ran, linked_moved linked pool rfl (live ▸ linked.shows.live) holds linked.kept, pool⟩

theorem linked_runs (linked : Linked place block world memory) {calls : List Call}
    (allowed : Meets step Allowed world calls)
    (named : ∀ i, place (memory.calls + i) = placeOf calls i)
    (sized : world.pool.block = 0 → blockOf calls = block) :
    ∃ final replies after asked answers, run step world calls = .ok (final, replies) ∧
      Meets ObjectPool.step ObjectPool.Owned memory asked ∧
      run ObjectPool.step memory asked = .ok (after, answers) ∧
      List.Forall₂ (SameCall (addressOf place block)) (calls.filter Call.isRequest) asked ∧
      List.Forall₂ (SameReply (addressOf place block)) (replies.filter Reply.isAnswer) answers ∧
      Linked place block final after := by
  induction calls generalizing world memory with
  | nil => exact ⟨world, [], memory, [], [], rfl, trivial, rfl, .nil, .nil, linked⟩
  | cons call calls ih =>
    obtain ⟨first, later⟩ := allowed
    by_cases request : call.isRequest
    · obtain ⟨next, reply, asked, after, answer, went, owned, same, ran, alike, linked, counted, unset⟩ :=
        linked_request linked request first (named 0) sized
      simp only [went] at later
      have names (i : Nat) : place (after.calls + i) = placeOf calls i := by
        rw [counted, Nat.add_assoc, Nat.add_comm 1, named, placeOf_request request]
      obtain ⟨final, replies, last, requests, answers, rest, guarded, runs, calls, said, ending⟩ :=
        ih linked later names unset
      refine ⟨final, reply :: replies, last, asked :: requests, answer :: answers, ?_, ⟨owned, ?_⟩, ?_, ?_,
        ?_, ending⟩
      · rw [Runs.run_cons went, rest]
        rfl
      · rw [ran]
        exact guarded
      · rw [Runs.run_cons ran, runs]
        rfl
      · rw [List.filter_cons_of_pos request]
        exact .cons same calls
      · rw [List.filter_cons_of_pos (answer_same alike)]
        exact .cons alike said
    · obtain ⟨next, went, linked, pool⟩ := linked_written linked request first
      simp only [went] at later
      rw [placeOf_other request] at named
      have unset : next.pool.block = 0 → blockOf calls = block := by
        rw [pool]
        cases call with
        | allocate => exact absurd rfl request
        | deallocate => exact absurd rfl request
        | write => exact sized
        | elsewhere => exact sized
      obtain ⟨final, replies, last, requests, answers, rest, guarded, runs, calls, said, ending⟩ :=
        ih linked later named unset
      refine ⟨final, .wrote :: replies, last, requests, answers, ?_, guarded, runs, ?_, said, ending⟩
      · rw [Runs.run_cons went, rest]
        rfl
      · rw [List.filter_cons_of_neg request]
        exact calls

theorem linked_empty (bytes : Nat → UInt8) : Linked place block { pool := {}, bytes } {} where
  shows := ⟨rfl, rfl, rfl, .nil, .nil⟩
  holds := holds_empty bytes
  kept := ObjectPool.kept_empty
  sized := fun set => absurd rfl set

/-- Whatever is requested, returned and written, the free list in memory is the
list of names, every request is answered with the block of the same name, and
every return ends in the same place. -/
theorem memory_answers_as_listed (bytes : Nat → UInt8) (calls : List Call)
    (allowed : Meets step Allowed { pool := {}, bytes } calls) :
    ∃ world replies memory asked answers, run step { pool := {}, bytes } calls = .ok (world, replies) ∧
      Meets ObjectPool.step ObjectPool.Owned {} asked ∧ run ObjectPool.step {} asked = .ok (memory, answers) ∧
      List.Forall₂ (SameCall (addressOf (placeOf calls) (blockOf calls))) (calls.filter Call.isRequest) asked ∧
      List.Forall₂ (SameReply (addressOf (placeOf calls) (blockOf calls))) (replies.filter Reply.isAnswer) answers ∧
      Shows (placeOf calls) (blockOf calls) world memory := by
  have named (i : Nat) : placeOf calls (({} : Memory).calls + i) = placeOf calls i := by rw [Nat.zero_add]
  obtain ⟨world, replies, memory, asked, answers, ran, owned, runs, same, said, linked⟩ :=
    linked_runs (linked_empty bytes) allowed named fun _ => rfl
  exact ⟨world, replies, memory, asked, answers, ran, owned, runs, same, said, linked.shows⟩

theorem node_and_word_as_listed :
    ∃ world replies memory asked answers,
      run step { pool := {}, bytes := fun _ => 0 } nodeAndWordCalls = .ok (world, replies) ∧
      Meets ObjectPool.step ObjectPool.Owned {} asked ∧ run ObjectPool.step {} asked = .ok (memory, answers) ∧
      List.Forall₂ (SameCall (addressOf (placeOf nodeAndWordCalls) (blockOf nodeAndWordCalls)))
        (nodeAndWordCalls.filter Call.isRequest) asked ∧
      List.Forall₂ (SameReply (addressOf (placeOf nodeAndWordCalls) (blockOf nodeAndWordCalls)))
        (replies.filter Reply.isAnswer) answers ∧
      Shows (placeOf nodeAndWordCalls) (blockOf nodeAndWordCalls) world memory :=
  memory_answers_as_listed (fun _ => 0) nodeAndWordCalls (by decide +kernel)

end LinkedPool
end Exchange
