import Exchange.Protocol
import Exchange.Runs

/-! The payload layouts. Every payload long enough for its decoder is a layout:
some single bytes, some words of eight bytes and a tail for the strings. A
decoder is described once, by what it makes of a layout. Packing a command and
unpacking it gives it back; packing an unpacked command gives the payload back
exactly when the side byte has a meaning and no byte is left over. -/
namespace Exchange.WireFormat
open Runs (bind_ok_iff)

/-! ## Words and codes -/

/-- The eight bytes of a `long long`. -/
abbrev Word := { bytes : Bytes // bytes.length = 8 }

theorem word_fits (word : Word) : BigEndian.get word.val < 2 ^ 64 := by
  have fits := BigEndian.get_lt word.val
  rw [word.property] at fits
  exact fits

theorem putU64_length (value : UInt64) : (putU64 value).length = 8 := BigEndian.put_length _ _

/-- `put_u64` of the value as unsigned; undone by `get_u64` and the cast back. -/
def wordEquiv : Int64 ≃ Word where
  toFun value := ⟨putU64 value.toUInt64, putU64_length _⟩
  invFun word := (UInt64.ofNat (BigEndian.get word.val)).toInt64
  left_inv value := by
    have read : BigEndian.get (putU64 value.toUInt64) = value.toUInt64.toNat :=
      BigEndian.get_put_of_lt value.toUInt64.toNat_lt
    simp only [read, UInt64.ofNat_toNat, Int64.toInt64_toUInt64]
  right_inv word := by
    apply Subtype.ext
    simp only [putU64, UInt64.toUInt64_toInt64]
    rw [UInt64.toNat_ofNat_of_lt' (word_fits word)]
    exact BigEndian.put_get_of_length word.property

/-- Eight bytes and what follows them. -/
theorem word_split {bytes : Bytes} (enough : 8 ≤ bytes.length) :
    ∃ (word : Word) (rest : Bytes), bytes = word.val ++ rest ∧ rest.length = bytes.length - 8 :=
  ⟨⟨bytes.take 8, List.length_take_of_le enough⟩, bytes.drop 8, (List.take_append_drop 8 bytes).symm,
    List.length_drop⟩

theorem codeToTif_iff (code : UInt8) (tif : TimeInForce) : codeToTif code = .ok tif ↔ code = tifToCode tif := by
  constructor
  · intro read
    unfold codeToTif throwRuntime at read
    split_ifs at read <;> cases read <;> assumption
  · rintro rfl
    cases tif <;> rfl

theorem codeToStp_iff (code : UInt8) (stp : SelfTradePrevention) :
    codeToStp code = .ok stp ↔ code = stpToCode stp := by
  constructor
  · intro read
    unfold codeToStp throwRuntime at read
    split_ifs at read <;> cases read <;> assumption
  · rintro rfl
    cases stp <;> rfl

/-! ## Layouts -/

@[ext] structure AddLayout where
  symbolLen : UInt8
  participantLen : UInt8
  side : UInt8
  tif : UInt8
  stp : UInt8
  orderId : Word
  priceTicks : Word
  quantity : Word
  tail : Bytes

def AddLayout.bytes (layout : AddLayout) : Bytes :=
  layout.symbolLen :: layout.participantLen :: layout.side :: layout.tif :: layout.stp ::
    (layout.orderId.val ++ (layout.priceTicks.val ++ (layout.quantity.val ++ layout.tail)))

@[ext] structure CancelLayout where
  symbolLen : UInt8
  orderId : Word
  tail : Bytes

def CancelLayout.bytes (layout : CancelLayout) : Bytes := layout.symbolLen :: (layout.orderId.val ++ layout.tail)

@[ext] structure ReplaceLayout where
  symbolLen : UInt8
  tif : UInt8
  orderId : Word
  newOrderId : Word
  newPriceTicks : Word
  newQuantity : Word
  tail : Bytes

def ReplaceLayout.bytes (layout : ReplaceLayout) : Bytes :=
  layout.symbolLen :: layout.tif :: (layout.orderId.val ++ (layout.newOrderId.val ++
    (layout.newPriceTicks.val ++ (layout.newQuantity.val ++ layout.tail))))

@[simp] theorem addLayout_length (layout : AddLayout) : layout.bytes.length = kHeaderSize + layout.tail.length := by
  simp [AddLayout.bytes, kHeaderSize, layout.orderId.property, layout.priceTicks.property, layout.quantity.property]
  omega

@[simp] theorem cancelLayout_length (layout : CancelLayout) : layout.bytes.length = 9 + layout.tail.length := by
  simp [CancelLayout.bytes, layout.orderId.property]
  omega

@[simp] theorem replaceLayout_length (layout : ReplaceLayout) :
    layout.bytes.length = kReplaceHead + layout.tail.length := by
  simp [ReplaceLayout.bytes, kReplaceHead, layout.orderId.property, layout.newOrderId.property,
    layout.newPriceTicks.property, layout.newQuantity.property]
  omega

theorem exists_addLayout {buf : Bytes} (enough : kHeaderSize ≤ buf.length) :
    ∃ layout : AddLayout, layout.bytes = buf := by
  obtain ⟨b0, b1, b2, b3, b4, rest, rfl⟩ : ∃ b0 b1 b2 b3 b4 rest, buf = b0 :: b1 :: b2 :: b3 :: b4 :: rest := by
    match buf with
    | b0 :: b1 :: b2 :: b3 :: b4 :: rest => exact ⟨b0, b1, b2, b3, b4, rest, rfl⟩
    | [] | [_] | [_, _] | [_, _, _] | [_, _, _, _] => simp [kHeaderSize] at enough
  simp only [kHeaderSize, List.length_cons] at enough
  obtain ⟨orderId, rest, rfl, left⟩ := @word_split rest (by omega)
  obtain ⟨priceTicks, rest, rfl, left'⟩ := @word_split rest (by omega)
  obtain ⟨quantity, tail, rfl, -⟩ := @word_split rest (by omega)
  exact ⟨⟨b0, b1, b2, b3, b4, orderId, priceTicks, quantity, tail⟩, rfl⟩

theorem exists_cancelLayout {buf : Bytes} (enough : 9 ≤ buf.length) :
    ∃ layout : CancelLayout, layout.bytes = buf := by
  cases buf with
  | nil => simp at enough
  | cons b0 rest =>
    rw [List.length_cons] at enough
    obtain ⟨orderId, tail, rfl, -⟩ := @word_split rest (by omega)
    exact ⟨⟨b0, orderId, tail⟩, rfl⟩

theorem exists_replaceLayout {buf : Bytes} (enough : kReplaceHead ≤ buf.length) :
    ∃ layout : ReplaceLayout, layout.bytes = buf := by
  obtain ⟨b0, b1, rest, rfl⟩ : ∃ b0 b1 rest, buf = b0 :: b1 :: rest := by
    match buf with
    | b0 :: b1 :: rest => exact ⟨b0, b1, rest, rfl⟩
    | [] | [_] => simp [kReplaceHead] at enough
  simp only [kReplaceHead, List.length_cons] at enough
  obtain ⟨orderId, rest, rfl, left⟩ := @word_split rest (by omega)
  obtain ⟨newOrderId, rest, rfl, left'⟩ := @word_split rest (by omega)
  obtain ⟨newPriceTicks, rest, rfl, left''⟩ := @word_split rest (by omega)
  obtain ⟨newQuantity, tail, rfl, -⟩ := @word_split rest (by omega)
  exact ⟨⟨b0, b1, orderId, newOrderId, newPriceTicks, newQuantity, tail⟩, rfl⟩

@[simp] theorem word_append_inj {word word' : Word} {rest rest' : Bytes} :
    word.val ++ rest = word'.val ++ rest' ↔ word = word' ∧ rest = rest' := by
  constructor
  · intro same
    obtain ⟨words, rests⟩ := List.append_inj same (word.property.trans word'.property.symm)
    exact ⟨Subtype.ext words, rests⟩
  · rintro ⟨rfl, rfl⟩
    rfl

theorem addLayout_bytes_inj {first second : AddLayout} : first.bytes = second.bytes ↔ first = second := by
  cases first
  cases second
  simp [AddLayout.bytes]

theorem cancelLayout_bytes_inj {first second : CancelLayout} : first.bytes = second.bytes ↔ first = second := by
  cases first
  cases second
  simp [CancelLayout.bytes]

theorem replaceLayout_bytes_inj {first second : ReplaceLayout} : first.bytes = second.bytes ↔ first = second := by
  cases first
  cases second
  simp [ReplaceLayout.bytes]

/-! ## What a decoder makes of a layout -/

@[simp] theorem substr_cons {offset count : Nat} (b : UInt8) (rest : Bytes) :
    substr (b :: rest) (offset + 1) count = substr rest offset count := rfl

@[simp] theorem substr_word {offset count : Nat} (word : Word) (rest : Bytes) :
    substr (word.val ++ rest) (offset + 8) count = substr rest offset count := by
  rw [substr, substr, Nat.add_comm, ← List.drop_drop, List.drop_left' word.property]

@[simp] theorem getU64_cons {offset : Nat} (b : UInt8) (rest : Bytes) :
    getU64 (b :: rest) (offset + 1) = getU64 rest offset := rfl

@[simp] theorem getU64_word {offset : Nat} (word : Word) (rest : Bytes) :
    getU64 (word.val ++ rest) (offset + 8) = getU64 rest offset := by
  rw [getU64, getU64, substr_word]

@[simp] theorem getU64_zero (word : Word) (rest : Bytes) :
    (getU64 (word.val ++ rest) 0).toInt64 = wordEquiv.symm word := by
  rw [getU64, substr, List.drop_zero, List.take_left' word.property]
  rfl

def AddLayout.command (layout : AddLayout) (tif : TimeInForce) (stp : SelfTradePrevention) : AddOrder where
  symbol := layout.tail.take layout.symbolLen.toNat
  orderId := wordEquiv.symm layout.orderId
  participantId := (layout.tail.drop layout.symbolLen.toNat).take layout.participantLen.toNat
  side := if layout.side = 1 then .buy else .sell
  priceTicks := wordEquiv.symm layout.priceTicks
  quantity := wordEquiv.symm layout.quantity
  timeInForce := tif
  stp := stp

def CancelLayout.command (layout : CancelLayout) : CancelOrder where
  symbol := layout.tail.take layout.symbolLen.toNat
  orderId := wordEquiv.symm layout.orderId

def ReplaceLayout.command (layout : ReplaceLayout) (tif : TimeInForce) : ReplaceOrder where
  symbol := layout.tail.take layout.symbolLen.toNat
  orderId := wordEquiv.symm layout.orderId
  newOrderId := wordEquiv.symm layout.newOrderId
  newPriceTicks := wordEquiv.symm layout.newPriceTicks
  newQuantity := wordEquiv.symm layout.newQuantity
  timeInForce := tif

theorem unpackAddOrder_bytes (layout : AddLayout) : unpackAddOrder layout.bytes =
    if 4096 < kHeaderSize + layout.tail.length then throwRuntime "buffer too large"
    else if layout.tail.length < layout.symbolLen.toNat + layout.participantLen.toNat then
      throwRuntime "truncated payload"
    else (codeToTif layout.tif).bind fun tif => (codeToStp layout.stp).bind fun stp =>
      .ok (layout.command tif stp) := by
  have small : ¬ layout.bytes.length < kHeaderSize := by simp
  have strings : ∀ offset count,
      substr layout.bytes (kHeaderSize + offset) count = substr layout.tail offset count := by
    intro offset count
    simp [AddLayout.bytes, kHeaderSize, Nat.add_comm _ offset]
  have symbol : substr layout.bytes kHeaderSize layout.symbolLen.toNat = substr layout.tail 0 layout.symbolLen.toNat :=
    strings 0 layout.symbolLen.toNat
  have words : (getU64 layout.bytes 5).toInt64 = wordEquiv.symm layout.orderId ∧
      (getU64 layout.bytes 13).toInt64 = wordEquiv.symm layout.priceTicks ∧
      (getU64 layout.bytes 21).toInt64 = wordEquiv.symm layout.quantity := by
    simp [AddLayout.bytes]
  have fits : kHeaderSize + layout.tail.length < kHeaderSize + layout.symbolLen.toNat + layout.participantLen.toNat ↔
      layout.tail.length < layout.symbolLen.toNat + layout.participantLen.toNat := by omega
  have single : getU8 layout.bytes 0 = layout.symbolLen ∧ getU8 layout.bytes 1 = layout.participantLen ∧
      getU8 layout.bytes 2 = layout.side ∧ getU8 layout.bytes 3 = layout.tif ∧ getU8 layout.bytes 4 = layout.stp :=
    ⟨rfl, rfl, rfl, rfl, rfl⟩
  rw [unpackAddOrder, if_neg small]
  simp only [addLayout_length, single, fits, words, strings, symbol]
  rfl

theorem unpackCancelOrder_bytes (layout : CancelLayout) : unpackCancelOrder layout.bytes =
    if layout.tail.length < layout.symbolLen.toNat then throwRuntime "truncated payload"
    else .ok layout.command := by
  have small : ¬ layout.bytes.length < 9 := by simp
  have symbol : substr layout.bytes 9 layout.symbolLen.toNat = substr layout.tail 0 layout.symbolLen.toNat := by
    simp [CancelLayout.bytes]
  have word : (getU64 layout.bytes 1).toInt64 = wordEquiv.symm layout.orderId := by simp [CancelLayout.bytes]
  have length : getU8 layout.bytes 0 = layout.symbolLen := rfl
  rw [unpackCancelOrder, if_neg small]
  simp only [cancelLayout_length, length, Nat.add_lt_add_iff_left, symbol, word]
  rfl

theorem unpackReplaceOrder_bytes (layout : ReplaceLayout) : unpackReplaceOrder layout.bytes =
    if layout.tail.length < layout.symbolLen.toNat then throwRuntime "truncated payload"
    else (codeToTif layout.tif).bind fun tif => .ok (layout.command tif) := by
  have small : ¬ layout.bytes.length < kReplaceHead := by simp
  have symbol : substr layout.bytes kReplaceHead layout.symbolLen.toNat =
      substr layout.tail 0 layout.symbolLen.toNat := by
    simp [ReplaceLayout.bytes, kReplaceHead]
  have words : (getU64 layout.bytes 2).toInt64 = wordEquiv.symm layout.orderId ∧
      (getU64 layout.bytes 10).toInt64 = wordEquiv.symm layout.newOrderId ∧
      (getU64 layout.bytes 18).toInt64 = wordEquiv.symm layout.newPriceTicks ∧
      (getU64 layout.bytes 26).toInt64 = wordEquiv.symm layout.newQuantity := by
    simp [ReplaceLayout.bytes]
  have single : getU8 layout.bytes 0 = layout.symbolLen ∧ getU8 layout.bytes 1 = layout.tif := ⟨rfl, rfl⟩
  rw [unpackReplaceOrder, if_neg small]
  simp only [replaceLayout_length, single, Nat.add_lt_add_iff_left, symbol, words]
  rfl

/-- What an accepted payload is, and what it is read as. -/
theorem unpackAddOrder_iff (layout : AddLayout) (cmd : AddOrder) : unpackAddOrder layout.bytes = .ok cmd ↔
    kHeaderSize + layout.tail.length ≤ 4096 ∧
    layout.symbolLen.toNat + layout.participantLen.toNat ≤ layout.tail.length ∧
    ∃ tif stp, layout.tif = tifToCode tif ∧ layout.stp = stpToCode stp ∧ layout.command tif stp = cmd := by
  rw [unpackAddOrder_bytes]
  split
  · rename_i large
    simp only [throwRuntime, reduceCtorEq, false_iff]
    omega
  · rename_i large
    split
    · rename_i short
      simp only [throwRuntime, reduceCtorEq, false_iff]
      omega
    · rename_i short
      simp only [bind_ok_iff, codeToTif_iff, codeToStp_iff, Except.ok.injEq]
      constructor
      · rintro ⟨tif, isTif, stp, isStp, same⟩
        exact ⟨by omega, by omega, tif, stp, isTif, isStp, same⟩
      · rintro ⟨-, -, tif, stp, isTif, isStp, same⟩
        exact ⟨tif, isTif, stp, isStp, same⟩

theorem unpackCancelOrder_iff (layout : CancelLayout) (cmd : CancelOrder) :
    unpackCancelOrder layout.bytes = .ok cmd ↔
      layout.symbolLen.toNat ≤ layout.tail.length ∧ layout.command = cmd := by
  rw [unpackCancelOrder_bytes]
  split
  · rename_i short
    simp only [throwRuntime, reduceCtorEq, false_iff]
    omega
  · rename_i short
    simp [Nat.le_of_not_lt short]

theorem unpackReplaceOrder_iff (layout : ReplaceLayout) (cmd : ReplaceOrder) :
    unpackReplaceOrder layout.bytes = .ok cmd ↔ layout.symbolLen.toNat ≤ layout.tail.length ∧
      ∃ tif, layout.tif = tifToCode tif ∧ layout.command tif = cmd := by
  rw [unpackReplaceOrder_bytes]
  split
  · rename_i short
    simp only [throwRuntime, reduceCtorEq, false_iff]
    omega
  · rename_i short
    simp [bind_ok_iff, codeToTif_iff, Nat.le_of_not_lt short]

/-! ## What packing writes -/

def addLayout (cmd : AddOrder) : AddLayout where
  symbolLen := UInt8.ofNat cmd.symbol.length
  participantLen := UInt8.ofNat cmd.participantId.length
  side := if cmd.side = .buy then 1 else 2
  tif := tifToCode cmd.timeInForce
  stp := stpToCode cmd.stp
  orderId := wordEquiv cmd.orderId
  priceTicks := wordEquiv cmd.priceTicks
  quantity := wordEquiv cmd.quantity
  tail := cmd.symbol ++ cmd.participantId

def cancelLayout (cmd : CancelOrder) : CancelLayout where
  symbolLen := UInt8.ofNat cmd.symbol.length
  orderId := wordEquiv cmd.orderId
  tail := cmd.symbol

def replaceLayout (cmd : ReplaceOrder) : ReplaceLayout where
  symbolLen := UInt8.ofNat cmd.symbol.length
  tif := tifToCode cmd.timeInForce
  orderId := wordEquiv cmd.orderId
  newOrderId := wordEquiv cmd.newOrderId
  newPriceTicks := wordEquiv cmd.newPriceTicks
  newQuantity := wordEquiv cmd.newQuantity
  tail := cmd.symbol

theorem packAddOrder_iff (cmd : AddOrder) (payload : Bytes) : packAddOrder cmd = .ok payload ↔
    cmd.symbol.length ≤ 255 ∧ cmd.participantId.length ≤ 255 ∧ (addLayout cmd).bytes = payload := by
  rw [packAddOrder]
  split
  · rename_i long
    simp only [throwRuntime, reduceCtorEq, false_iff]
    omega
  · rename_i long
    have shape : (addLayout cmd).bytes = putU8 (UInt8.ofNat cmd.symbol.length) ++
        putU8 (UInt8.ofNat cmd.participantId.length) ++ putU8 (if cmd.side = .buy then 1 else 2) ++
        putU8 (tifToCode cmd.timeInForce) ++ putU8 (stpToCode cmd.stp) ++ putU64 cmd.orderId.toUInt64 ++
        putU64 cmd.priceTicks.toUInt64 ++ putU64 cmd.quantity.toUInt64 ++ cmd.symbol ++ cmd.participantId := by
      simp [AddLayout.bytes, addLayout, putU8, wordEquiv]
    rw [← shape, Except.ok.injEq]
    simp [Nat.le_of_not_lt (not_or.mp long).1, Nat.le_of_not_lt (not_or.mp long).2]

theorem packCancelOrder_iff (cmd : CancelOrder) (payload : Bytes) : packCancelOrder cmd = .ok payload ↔
    cmd.symbol.length ≤ 255 ∧ (cancelLayout cmd).bytes = payload := by
  rw [packCancelOrder]
  split
  · rename_i long
    simp only [throwRuntime, reduceCtorEq, false_iff]
    omega
  · rename_i long
    have shape : (cancelLayout cmd).bytes =
        putU8 (UInt8.ofNat cmd.symbol.length) ++ putU64 cmd.orderId.toUInt64 ++ cmd.symbol := by
      simp [CancelLayout.bytes, cancelLayout, putU8, wordEquiv]
    rw [← shape, Except.ok.injEq]
    simp [Nat.le_of_not_lt long]

theorem packReplaceOrder_iff (cmd : ReplaceOrder) (payload : Bytes) : packReplaceOrder cmd = .ok payload ↔
    cmd.symbol.length ≤ 255 ∧ (replaceLayout cmd).bytes = payload := by
  rw [packReplaceOrder]
  split
  · rename_i long
    simp only [throwRuntime, reduceCtorEq, false_iff]
    omega
  · rename_i long
    have shape : (replaceLayout cmd).bytes = putU8 (UInt8.ofNat cmd.symbol.length) ++
        putU8 (tifToCode cmd.timeInForce) ++ putU64 cmd.orderId.toUInt64 ++ putU64 cmd.newOrderId.toUInt64 ++
        putU64 cmd.newPriceTicks.toUInt64 ++ putU64 cmd.newQuantity.toUInt64 ++ cmd.symbol := by
      simp [ReplaceLayout.bytes, replaceLayout, putU8, wordEquiv]
    rw [← shape, Except.ok.injEq]
    simp [Nat.le_of_not_lt long]

/-! ## Decoding what was encoded -/

theorem length_byte {text : Bytes} (short : text.length ≤ 255) : (UInt8.ofNat text.length).toNat = text.length := by
  rw [UInt8.toNat_ofNat']
  omega

theorem unpack_packed_add {cmd : AddOrder} {payload : Bytes} (packed : packAddOrder cmd = .ok payload) :
    unpackAddOrder payload = .ok cmd := by
  obtain ⟨symbol, participant, rfl⟩ := (packAddOrder_iff cmd payload).mp packed
  refine (unpackAddOrder_iff _ _).mpr ⟨?_, ?_, cmd.timeInForce, cmd.stp, rfl, rfl, ?_⟩
  · simp only [addLayout, kHeaderSize, List.length_append]
    omega
  · simp [addLayout, length_byte symbol, length_byte participant]
  · simp only [AddLayout.command, addLayout, length_byte symbol, length_byte participant, List.take_left,
      List.drop_left, List.take_length, Equiv.symm_apply_apply]
    obtain ⟨_, _, _, side, _, _, _, _⟩ := cmd
    cases side <;> rfl

theorem unpack_packed_cancel {cmd : CancelOrder} {payload : Bytes} (packed : packCancelOrder cmd = .ok payload) :
    unpackCancelOrder payload = .ok cmd := by
  obtain ⟨symbol, rfl⟩ := (packCancelOrder_iff cmd payload).mp packed
  refine (unpackCancelOrder_iff _ _).mpr ⟨?_, ?_⟩
  · simp [cancelLayout, length_byte symbol]
  · simp [CancelLayout.command, cancelLayout, length_byte symbol]

theorem unpack_packed_replace {cmd : ReplaceOrder} {payload : Bytes} (packed : packReplaceOrder cmd = .ok payload) :
    unpackReplaceOrder payload = .ok cmd := by
  obtain ⟨symbol, rfl⟩ := (packReplaceOrder_iff cmd payload).mp packed
  refine (unpackReplaceOrder_iff _ _).mpr ⟨?_, cmd.timeInForce, rfl, ?_⟩
  · simp [replaceLayout, length_byte symbol]
  · simp [ReplaceLayout.command, replaceLayout, length_byte symbol]

/-! ## Encoding what was decoded -/

/-- Packing writes 1 or 2 for the side and the strings as long as announced. -/
theorem addLayout_command {layout : AddLayout} (tif : TimeInForce) (stp : SelfTradePrevention)
    (fits : layout.symbolLen.toNat + layout.participantLen.toNat ≤ layout.tail.length) :
    addLayout (layout.command tif stp) = { layout with
      side := if layout.side = 1 then 1 else 2
      tif := tifToCode tif
      stp := stpToCode stp
      tail := layout.tail.take (layout.symbolLen.toNat + layout.participantLen.toNat) } := by
  have symbol : min layout.symbolLen.toNat layout.tail.length = layout.symbolLen.toNat := by omega
  have participant : min layout.participantLen.toNat (layout.tail.length - layout.symbolLen.toNat) =
      layout.participantLen.toNat := by omega
  simp only [addLayout, AddLayout.command, List.length_take, List.length_drop, symbol, participant, List.take_add,
    UInt8.ofNat_toNat, Equiv.apply_symm_apply]
  by_cases buys : layout.side = 1 <;> simp [buys]

theorem pack_unpacked_add {payload : Bytes} {cmd : AddOrder} (unpacked : unpackAddOrder payload = .ok cmd) :
    packAddOrder cmd = .ok payload ↔ (getU8 payload 2 = 1 ∨ getU8 payload 2 = 2) ∧
      payload.length = kHeaderSize + (getU8 payload 0).toNat + (getU8 payload 1).toNat := by
  have enough : kHeaderSize ≤ payload.length := by
    by_contra small
    rw [unpackAddOrder, if_pos (by omega)] at unpacked
    cases unpacked
  obtain ⟨layout, rfl⟩ := exists_addLayout enough
  obtain ⟨-, fits, tif, stp, isTif, isStp, rfl⟩ := (unpackAddOrder_iff _ _).mp unpacked
  have single : getU8 layout.bytes 0 = layout.symbolLen ∧ getU8 layout.bytes 1 = layout.participantLen ∧
      getU8 layout.bytes 2 = layout.side := ⟨rfl, rfl, rfl⟩
  have symbolShort := layout.symbolLen.toNat_lt
  have participantShort := layout.participantLen.toNat_lt
  have short : (layout.command tif stp).symbol.length ≤ 255 ∧
      (layout.command tif stp).participantId.length ≤ 255 := by
    simp only [AddLayout.command, List.length_take]
    omega
  have side : (if layout.side = 1 then 1 else 2 : UInt8) = layout.side ↔ layout.side = 1 ∨ layout.side = 2 := by
    by_cases buys : layout.side = 1 <;> simp [buys, eq_comm]
  rw [packAddOrder_iff, addLayout_bytes_inj, addLayout_command tif stp fits, addLayout_length]
  simp only [single, short, true_and]
  simp only [AddLayout.ext_iff, side, ← isTif, ← isStp, true_and, List.take_eq_self_iff]
  refine and_congr_right fun _ => ?_
  omega

theorem pack_unpacked_cancel {payload : Bytes} {cmd : CancelOrder} (unpacked : unpackCancelOrder payload = .ok cmd) :
    packCancelOrder cmd = .ok payload ↔ payload.length = 9 + (getU8 payload 0).toNat := by
  have enough : 9 ≤ payload.length := by
    by_contra small
    rw [unpackCancelOrder, if_pos (by omega)] at unpacked
    cases unpacked
  obtain ⟨layout, rfl⟩ := exists_cancelLayout enough
  obtain ⟨fits, rfl⟩ := (unpackCancelOrder_iff _ _).mp unpacked
  have single : getU8 layout.bytes 0 = layout.symbolLen := rfl
  have symbolShort := layout.symbolLen.toNat_lt
  have symbol : min layout.symbolLen.toNat layout.tail.length = layout.symbolLen.toNat := by omega
  have written : cancelLayout layout.command = { layout with tail := layout.tail.take layout.symbolLen.toNat } := by
    simp [cancelLayout, CancelLayout.command, symbol]
  have short : layout.command.symbol.length ≤ 255 := by
    simp only [CancelLayout.command, List.length_take]
    omega
  rw [packCancelOrder_iff, cancelLayout_bytes_inj, written, cancelLayout_length]
  simp only [single, short, true_and, CancelLayout.ext_iff, List.take_eq_self_iff]
  omega

theorem pack_unpacked_replace {payload : Bytes} {cmd : ReplaceOrder}
    (unpacked : unpackReplaceOrder payload = .ok cmd) :
    packReplaceOrder cmd = .ok payload ↔ payload.length = kReplaceHead + (getU8 payload 0).toNat := by
  have enough : kReplaceHead ≤ payload.length := by
    by_contra small
    rw [unpackReplaceOrder, if_pos (by omega)] at unpacked
    cases unpacked
  obtain ⟨layout, rfl⟩ := exists_replaceLayout enough
  obtain ⟨fits, tif, isTif, rfl⟩ := (unpackReplaceOrder_iff _ _).mp unpacked
  have single : getU8 layout.bytes 0 = layout.symbolLen := rfl
  have symbolShort := layout.symbolLen.toNat_lt
  have symbol : min layout.symbolLen.toNat layout.tail.length = layout.symbolLen.toNat := by omega
  have written : replaceLayout (layout.command tif) =
      { layout with tif := tifToCode tif, tail := layout.tail.take layout.symbolLen.toNat } := by
    simp [replaceLayout, ReplaceLayout.command, symbol]
  have short : (layout.command tif).symbol.length ≤ 255 := by
    simp only [ReplaceLayout.command, List.length_take]
    omega
  rw [packReplaceOrder_iff, replaceLayout_bytes_inj, written, replaceLayout_length]
  simp only [single, short, true_and, ReplaceLayout.ext_iff, ← isTif, List.take_eq_self_iff]
  omega

/-- A packed payload is as long as its length bytes say. -/
theorem packed_length_add {cmd : AddOrder} {payload : Bytes} (packed : packAddOrder cmd = .ok payload) :
    payload.length = kHeaderSize + (getU8 payload 0).toNat + (getU8 payload 1).toNat :=
  ((pack_unpacked_add (unpack_packed_add packed)).mp packed).2

theorem packed_length_cancel {cmd : CancelOrder} {payload : Bytes} (packed : packCancelOrder cmd = .ok payload) :
    payload.length = 9 + (getU8 payload 0).toNat :=
  (pack_unpacked_cancel (unpack_packed_cancel packed)).mp packed

theorem packed_length_replace {cmd : ReplaceOrder} {payload : Bytes} (packed : packReplaceOrder cmd = .ok payload) :
    payload.length = kReplaceHead + (getU8 payload 0).toNat :=
  (pack_unpacked_replace (unpack_packed_replace packed)).mp packed

/-- An accepted payload is the encoding of the command it is read as exactly
when its side byte, if it has one, is 1 or 2 and its strings fill it. -/
theorem accepted_reencodes_iff (payload : Bytes) :
    (∀ cmd, unpackAddOrder payload = .ok cmd → (packAddOrder cmd = .ok payload ↔
      (getU8 payload 2 = 1 ∨ getU8 payload 2 = 2) ∧
        payload.length = kHeaderSize + (getU8 payload 0).toNat + (getU8 payload 1).toNat)) ∧
    (∀ cmd, unpackCancelOrder payload = .ok cmd → (packCancelOrder cmd = .ok payload ↔
      payload.length = 9 + (getU8 payload 0).toNat)) ∧
    (∀ cmd, unpackReplaceOrder payload = .ok cmd → (packReplaceOrder cmd = .ok payload ↔
      payload.length = kReplaceHead + (getU8 payload 0).toNat)) :=
  ⟨fun _ unpacked => pack_unpacked_add unpacked, fun _ unpacked => pack_unpacked_cancel unpacked,
    fun _ unpacked => pack_unpacked_replace unpacked⟩

/-- A cancel of order 7 with one byte behind its symbol. -/
def paddedCancel : Bytes := [1, 0, 0, 0, 0, 0, 0, 0, 7, 83, 0]

/-- It is read, and its length decides that it is not what a cancel is written as. -/
theorem padded_cancel_reencodes_iff :
    unpackCancelOrder paddedCancel = .ok { symbol := [83], orderId := 7 } ∧
      (packCancelOrder { symbol := [83], orderId := 7 } = .ok paddedCancel ↔
        paddedCancel.length = 9 + (getU8 paddedCancel 0).toNat) :=
  ⟨by decide, (accepted_reencodes_iff paddedCancel).2.1 _ (by decide)⟩

/-- An add of nothing whose side byte is 9. -/
def unnamedSide : Bytes := [0, 0, 9, 1, 0] ++ List.replicate 24 0

/-- A side byte without a meaning is read as a sell, and leftover bytes are
passed over. -/
theorem accepted_does_not_reencode :
    ¬ (∀ payload cmd, unpackAddOrder payload = .ok cmd → packAddOrder cmd = .ok payload) ∧
    ¬ (∀ payload cmd, unpackCancelOrder payload = .ok cmd → packCancelOrder cmd = .ok payload) := by
  constructor
  · intro always
    have again := always unnamedSide { symbol := [], participantId := [], side := .sell } (by decide)
    exact absurd again (by decide)
  · intro always
    have again := always paddedCancel { symbol := [83], orderId := 7 } (by decide)
    exact absurd again (by decide)

end Exchange.WireFormat
