import Exchange.ObjectPool
import Exchange.ByteMemory

/-! The pool as it lies in memory: the free list is linked through the free
blocks themselves, and a block that is handed out belongs to its owner byte by
byte. What goes back to `::operator delete` has to have come from `::operator
new`, with the same alignment. -/
namespace Exchange
open ByteMemory (storeWord loadWord pushAll Range Chain)
open PoolResource (blockSize kBlocksPerChunk)

structure LinkedPool where
  block : UInt64 := 0
  align : UInt64 := 16
  free : UInt64 := 0
  chunks : List UInt64 := []

namespace LinkedPool

/-- Memory from `::operator new`. -/
structure Given where
  address : UInt64
  size : UInt64
  align : UInt64
  deriving DecidableEq

/-- What a request does: the pool, memory, the block and what `::operator new` gave for it. -/
structure Grant where
  pool : LinkedPool
  bytes : Nat → UInt8
  block : Option UInt64
  given : Option Given := none

/-- `grow`, with the chunk that `::operator new` gave. -/
def grow (pool : LinkedPool) (bytes : Nat → UInt8) (chunk : UInt64) : LinkedPool × (Nat → UInt8) :=
  let (bytes, free) := (List.range kBlocksPerChunk).foldl (fun (bytes, free) i =>
    let slot := chunk + UInt64.ofNat i * pool.block
    (storeWord bytes slot.toNat free, slot)) (bytes, pool.free)
  ({ pool with chunks := pool.chunks ++ [chunk], free }, bytes)

/-- The end of `allocate`. If `::operator new` throws there is no block. -/
def pop (pool : LinkedPool) (bytes : Nat → UInt8) (new : Option UInt64) : Grant :=
  if pool.free = 0 then
    match new with
    | none => { pool, bytes, block := none }
    | some chunk =>
      let size := pool.block * UInt64.ofNat kBlocksPerChunk
      let (pool, bytes) := pool.grow bytes chunk
      { pool := { pool with free := loadWord bytes pool.free.toNat }, bytes, block := some pool.free,
        given := some ⟨chunk, size, pool.align⟩ }
  else { pool := { pool with free := loadWord bytes pool.free.toNat }, bytes, block := some pool.free }

/-- What a call of `::operator new` with this size and alignment gives to the caller. -/
def fallback (pool : LinkedPool) (bytes : Nat → UInt8) (size align : UInt64) (new : Option UInt64) : Grant :=
  { pool, bytes, block := new, given := new.map fun address => ⟨address, size, align⟩ }

def allocate (pool : LinkedPool) (bytes : Nat → UInt8) (size align : UInt64) (new : Option UInt64) : Grant :=
  let need := blockSize size align
  if pool.block = 0 then { pool with block := need, align }.pop bytes new
  else if need ≠ pool.block ∨ align ≠ pool.align then pool.fallback bytes size align new
  else pool.pop bytes new

/-- `deallocate`: the block becomes the first free one, or `::operator delete` gets it with an alignment. -/
def deallocate (pool : LinkedPool) (bytes : Nat → UInt8) (p size align : UInt64) :
    LinkedPool × (Nat → UInt8) × Option (UInt64 × UInt64) :=
  if pool.block = 0 ∨ blockSize size align ≠ pool.block ∨ align ≠ pool.align then (pool, bytes, some (p, align))
  else ({ pool with free := p }, storeWord bytes p.toNat pool.free, none)

/-- A size and an alignment that a type can have: the alignment is a power of
two and divides the size, and memory has room for a chunk of such objects. -/
structure ObjectType where
  bytes : UInt64
  align : UInt64
  log : Nat
  power : align.toNat = 2 ^ log
  multiple : align.toNat ∣ bytes.toNat
  room : max bytes.toNat 8 + align.toNat ≤ 2 ^ 54
  deriving DecidableEq

def ObjectType.layout (type : ObjectType) : Layout :=
  .ofType type.bytes type.align type.log type.power type.multiple

namespace PoolAllocator

/-- Only single objects come from the resource. -/
def allocate (pool : LinkedPool) (bytes : Nat → UInt8) (type : ObjectType) (n : UInt64)
    (new : Option UInt64) : Grant :=
  if n ≠ 1 then pool.fallback bytes (n * type.bytes) type.align new
  else pool.allocate bytes type.bytes type.align new

def deallocate (pool : LinkedPool) (bytes : Nat → UInt8) (type : ObjectType) (p n : UInt64) :
    LinkedPool × (Nat → UInt8) × Option (UInt64 × UInt64) :=
  if n ≠ 1 then (pool, bytes, some (p, type.align)) else pool.deallocate bytes p type.bytes type.align

end PoolAllocator

/-! ## The pool and its users -/

/-- A block in use: what it was allocated for, and what its owner has written into it. -/
structure Holding where
  address : UInt64
  type : ObjectType
  n : UInt64
  written : Nat → Option UInt8

/-- The bytes of the objects in a block. -/
def Holding.size (held : Holding) : Nat := held.n.toNat * held.type.bytes.toNat

def Holding.range (held : Holding) : Range := ⟨held.address.toNat, held.size⟩

def Given.range (given : Given) : Range := ⟨given.address.toNat, max given.size.toNat 1⟩

/-- The pool, memory, the blocks in use, and what `::operator new` gave and has not got back. -/
structure World where
  pool : LinkedPool
  bytes : Nat → UInt8
  live : List Holding := []
  given : List Given := []

inductive Call where
  | allocate (type : ObjectType) (n : UInt64) (new : Option UInt64)
  | deallocate (address : UInt64) (type : ObjectType) (n : UInt64)
  /-- An owner writes into its block. -/
  | write (address : UInt64) (offset : Nat) (byte : UInt8)
  /-- Memory the pool and its users have not asked for is written to by others. -/
  | elsewhere (address : Nat) (byte : UInt8)
  deriving DecidableEq

inductive Reply where
  | handed (block : Option UInt64) (given : Option Given)
  | returned (deleted : Option (UInt64 × UInt64))
  | wrote
  deriving DecidableEq

/-- What `::operator delete` gets did not come from `::operator new`, or with another alignment. -/
inductive Fault where
  | wrongDelete
  deriving DecidableEq

/-- `::operator delete`. -/
def delete (given : List Given) (deleted : UInt64 × UInt64) : Except Fault (List Given) :=
  match given.find? fun own => own.address = deleted.1 with
  | some own => if own.align = deleted.2 then .ok (given.erase own) else .error .wrongDelete
  | none => .error .wrongDelete

def setByte (bytes : Nat → UInt8) (address : Nat) (byte : UInt8) : Nat → UInt8 := fun other =>
  if other = address then byte else bytes other

def Holding.write (held : Holding) (offset : Nat) (byte : UInt8) : Holding :=
  { held with written := fun other => if other = offset then some byte else held.written other }

/-- The block of a granted request is in use from here on. -/
def World.granted (world : World) (type : ObjectType) (n : UInt64) (grant : Grant) : World where
  pool := grant.pool
  bytes := grant.bytes
  live := (grant.block.map fun address => (⟨address, type, n, fun _ => none⟩ : Holding)).toList ++ world.live
  given := grant.given.toList ++ world.given

def step (world : World) : Call → Except Fault (World × Reply)
  | .allocate type n new =>
    let grant := PoolAllocator.allocate world.pool world.bytes type n new
    .ok (world.granted type n grant, .handed grant.block grant.given)
  | .deallocate address type n => do
    let (pool, bytes, deleted) := PoolAllocator.deallocate world.pool world.bytes type address n
    let given ← deleted.elim (.ok world.given) (delete world.given)
    .ok ({ pool, bytes, live := world.live.eraseP fun held => held.address = address, given }, .returned deleted)
  | .write address offset byte =>
    .ok ({ world with
      bytes := setByte world.bytes (address.toNat + offset) byte
      live := world.live.map fun held => if held.address = address then held.write offset byte else held }, .wrote)
  | .elsewhere address byte => .ok ({ world with bytes := setByte world.bytes address byte }, .wrote)

/-- `~PoolResource`. -/
def destroy (world : World) : Except Fault (List Given) :=
  world.pool.chunks.foldlM (fun given chunk => delete given (chunk, world.pool.align)) world.given

/-- What `::operator new` promises: an aligned place in memory, apart from all it has given before. -/
def Fresh (given : List Given) (new : Given) : Prop :=
  new.address ≠ 0 ∧ new.align.toNat ∣ new.address.toNat ∧
  new.address.toNat + max new.size.toNat 1 ≤ 2 ^ 64 ∧
    ∀ own ∈ given, new.range.Apart own.range

instance (given : List Given) : DecidablePred (Fresh given) := fun new => by unfold Fresh; infer_instance

/-- Memory is requested for arrays that fit into it; blocks are returned once and
as what they were requested for, and written to within their bounds while they
are in use. -/
def Allowed (world : World) : Call → Prop
  | .allocate type n new => n.toNat * type.bytes.toNat < 2 ^ 64 ∧
      ∀ given ∈ (PoolAllocator.allocate world.pool world.bytes type n new).given, Fresh world.given given
  | .deallocate address type n => ∃ held ∈ world.live, held.address = address ∧ held.type = type ∧ held.n = n
  | .write address offset _ => ∃ held ∈ world.live, held.address = address ∧ offset < held.size
  | .elsewhere address _ => ∀ own ∈ world.given, ¬ own.range.Covers address

instance (world : World) : DecidablePred (Allowed world)
  | .allocate type n new => inferInstanceAs (Decidable (n.toNat * type.bytes.toNat < 2 ^ 64 ∧
      ∀ given ∈ (PoolAllocator.allocate world.pool world.bytes type n new).given, Fresh world.given given))
  | .deallocate address type n =>
    inferInstanceAs (Decidable (∃ held ∈ world.live, held.address = address ∧ held.type = type ∧ held.n = n))
  | .write address offset _ =>
    inferInstanceAs (Decidable (∃ held ∈ world.live, held.address = address ∧ offset < held.size))
  | .elsewhere address _ => inferInstanceAs (Decidable (∀ own ∈ world.given, ¬ own.range.Covers address))

/-- The comparison that is made for a block when it is handed out, and again when
it is returned. -/
def Pooled (pool : LinkedPool) (held : Holding) : Prop :=
  held.n = 1 ∧ pool.block ≠ 0 ∧ blockSize held.type.bytes held.type.align = pool.block ∧
  held.type.align = pool.align

instance (pool : LinkedPool) : DecidablePred (Pooled pool) := fun _ => inferInstanceAs (Decidable (_ ∧ _))

def slotRange (pool : LinkedPool) (slot : UInt64) : Range := ⟨slot.toNat, pool.block.toNat⟩

/-- The slots in the order in which `grow` links them. -/
def slotsOf (pool : LinkedPool) (chunk : UInt64) : List UInt64 :=
  (List.range kBlocksPerChunk).map fun i => chunk + UInt64.ofNat i * pool.block

def Holding.given (held : Holding) : Given := ⟨held.address, held.n * held.type.bytes, held.type.align⟩

/-- What its users and `::operator new` may rely on. -/
structure Intact (world : World) : Prop where
  aligned : ∀ held ∈ world.live, held.address ≠ 0 ∧ held.type.align.toNat ∣ held.address.toNat ∧
    held.address.toNat + held.size ≤ 2 ^ 64
  apart : world.live.Pairwise fun first second => first.range.Apart second.range
  written : ∀ held ∈ world.live, ∀ offset byte, held.written offset = some byte →
    world.bytes (held.address.toNat + offset) = byte
  /-- The list ends, its blocks lie apart from each other and from all that is in
  use, and with the blocks handed out they are the slots of the chunks. -/
  free : ∃ nodes, Chain world.bytes world.pool.free nodes ∧
    (nodes.map (slotRange world.pool)).Pairwise Range.Apart ∧
    (∀ node ∈ nodes, ∀ held ∈ world.live, (slotRange world.pool node).Apart held.range) ∧
    (nodes ++ (world.live.filter fun held => Pooled world.pool held).map Holding.address).Perm
      (world.pool.chunks.flatMap (slotsOf world.pool))
  /-- The destructor gives everything back, but for the blocks in use that are not from a chunk. -/
  destroyed : ∃ given, destroy world = .ok given ∧
    given.Perm ((world.live.filter fun held => ¬ Pooled world.pool held).map Holding.given)

/-! ## Sizes -/

/-- What is left of a word without its lowest bits. -/
theorem toNat_and_not_mask {x align : UInt64} {log : Nat} (power : align.toNat = 2 ^ log) :
    (x &&& ~~~(align - 1)).toNat = x.toNat / 2 ^ log * 2 ^ log := by
  have one : (1 : UInt64).toNat = 1 := rfl
  have below := align.toNat_lt
  have positive := Nat.two_pow_pos log
  have mask : (align - 1).toNat = 2 ^ log - 1 := by
    rw [UInt64.toNat_sub, one]
    omega
  have flipped : (~~~(align - 1)).toNat = 2 ^ 64 - (2 ^ log - 1 + 1) := by
    rw [← mask, ← UInt64.toNat_toBitVec, UInt64.toBitVec_not, BitVec.toNat_not, UInt64.toNat_toBitVec]
    omega
  have small : 2 ^ log - 1 < 2 ^ 64 := by omega
  rw [UInt64.toNat_and, flipped, ← Nat.shiftRight_eq_div_pow, ← Nat.shiftLeft_eq]
  refine Nat.eq_of_testBit_eq fun i => ?_
  rw [Nat.testBit_and, Nat.testBit_two_pow_sub_succ small, Nat.testBit_two_pow_sub_one, Nat.testBit_shiftLeft,
    Nat.testBit_shiftRight]
  by_cases low : i < log
  · simp [low]
  · rw [Nat.add_sub_cancel' (Nat.le_of_not_lt low)]
    by_cases inside : i < 64
    · simp [low, inside, Nat.le_of_not_lt low]
    · have high : x.toNat.testBit i = false :=
        Nat.testBit_lt_two_pow
          (Nat.lt_of_lt_of_le x.toNat_lt (Nat.pow_le_pow_right (by decide) (Nat.le_of_not_lt inside)))
      simp [high]

namespace ObjectType
variable (type : ObjectType)

/-- The size of a block for this type. -/
def need : UInt64 := blockSize type.bytes type.align

theorem align_pos : 0 < type.align.toNat := type.power ▸ Nat.two_pow_pos type.log

theorem need_toNat : type.need.toNat =
    (max type.bytes.toNat 8 + type.align.toNat - 1) / type.align.toNat * type.align.toNat := by
  have room := type.room
  have aligned := type.align_pos
  have least : (if type.bytes < 8 then 8 else type.bytes : UInt64).toNat = max type.bytes.toNat 8 := by
    split
    · rename_i small
      exact (Nat.max_eq_right (Nat.le_of_lt (UInt64.lt_iff_toNat_lt.mp small))).symm
    · rename_i large
      exact (Nat.max_eq_left (Nat.not_lt.mp fun less => large (UInt64.lt_iff_toNat_lt.mpr less))).symm
  have sum : ((if type.bytes < 8 then 8 else type.bytes) + type.align - 1).toNat =
      max type.bytes.toNat 8 + type.align.toNat - 1 := by
    have one : (1 : UInt64).toNat = 1 := rfl
    rw [UInt64.toNat_sub, UInt64.toNat_add, least, one]
    omega
  rw [need, blockSize, toNat_and_not_mask type.power, sum, type.power]

theorem align_dvd_need : type.align.toNat ∣ type.need.toNat :=
  ⟨_, type.need_toNat.trans (Nat.mul_comm _ _)⟩

theorem le_need : max type.bytes.toNat 8 ≤ type.need.toNat := by
  have aligned := type.align_pos
  have rounded := Nat.div_add_mod (max type.bytes.toNat 8 + type.align.toNat - 1) type.align.toNat
  have rest := Nat.mod_lt (max type.bytes.toNat 8 + type.align.toNat - 1) aligned
  rw [need_toNat, Nat.mul_comm]
  omega

theorem need_lt : type.need.toNat < 2 ^ 54 := by
  have room := type.room
  have aligned := type.align_pos
  have rounded := Nat.div_mul_le_self (max type.bytes.toNat 8 + type.align.toNat - 1) type.align.toNat
  rw [need_toNat]
  omega

end ObjectType

end LinkedPool
end Exchange
