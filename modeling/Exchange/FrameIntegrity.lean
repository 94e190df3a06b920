import Exchange.ByteErrors
import Exchange.Frames

/-! Frames with one wrong byte. The checksum covers the payload and is itself
compared, so a wrong byte there is always noticed; a wrong length either waits
for bytes or cuts the payload short, which no decoder accepts. The type byte is
covered by nothing: what happens to it depends on which layouts the payload
also fits. -/
namespace Exchange.FrameIntegrity
open WireFormat Frames

/-- Nothing is taken off the front: the loop throws, or waits with its offset
where it was. -/
def Refused (data : Bytes) : Prop :=
  parseLoop takeMessage data 0 = ([], .ok 0) ∨ ∃ fault, parseLoop takeMessage data 0 = ([], .error fault)

theorem refused_iff (data : Bytes) : Refused data ↔ ∀ type payload next taken,
    parseFrame data 0 = .ok (some (type, payload, next)) → takeMessage type payload ≠ .ok taken := by
  unfold Refused
  rw [parseLoop]
  split
  · rename_i fault parsed
    simp [parsed]
  · rename_i parsed
    simp [parsed]
  · rename_i type payload next parsed
    split
    · rename_i fault visited
      refine iff_of_true (.inr ⟨fault, rfl⟩) ?_
      rintro _ _ _ taken same
      rw [parsed] at same
      cases same
      simp [visited]
    · rename_i taken visited
      simp only [parsed, Prod.mk.injEq, reduceCtorEq, false_and, exists_false, or_self, false_iff]
      intro never
      exact never type payload next taken rfl visited

/-- What follows the type and the length field decides. -/
theorem refused_header (type : UInt8) {len : Bytes} (width : len.length = 4) (rest : Bytes) :
    Refused (type :: (len ++ rest)) ↔ rest.length < BigEndian.get len + 4 ∨
      crc32 (rest.take (BigEndian.get len)) ≠
        UInt32.ofNat (BigEndian.get ((rest.drop (BigEndian.get len)).take 4)) ∨
      ¬ ∃ taken, takeMessage ⟨type⟩ (rest.take (BigEndian.get len)) = .ok taken := by
  rw [refused_iff, parseFrame_header type width rest]
  split
  · rename_i short
    simp [short]
  · rename_i short
    split
    · rename_i mismatch
      simp [mismatch, throwRuntime]
    · rename_i mismatch
      simp only [short, mismatch, false_or, not_exists]
      constructor
      · intro never taken
        exact never _ _ _ taken rfl
      · rintro never _ _ _ taken same
        cases same
        exact never taken

/-! ## What a decoder accepts -/

theorem accepts_add (payload : Bytes) : (∃ cmd, unpackAddOrder payload = .ok cmd) ↔ payload.length ≤ 4096 ∧
    kHeaderSize + (getU8 payload 0).toNat + (getU8 payload 1).toNat ≤ payload.length ∧
    (∃ tif, getU8 payload 3 = tifToCode tif) ∧ ∃ stp, getU8 payload 4 = stpToCode stp := by
  by_cases enough : kHeaderSize ≤ payload.length
  · obtain ⟨layout, rfl⟩ := exists_addLayout enough
    have single : getU8 layout.bytes 0 = layout.symbolLen ∧ getU8 layout.bytes 1 = layout.participantLen ∧
        getU8 layout.bytes 3 = layout.tif ∧ getU8 layout.bytes 4 = layout.stp := ⟨rfl, rfl, rfl, rfl⟩
    simp only [unpackAddOrder_iff, addLayout_length, single]
    constructor
    · rintro ⟨cmd, small, fits, tif, stp, isTif, isStp, -⟩
      exact ⟨small, by omega, ⟨tif, isTif⟩, stp, isStp⟩
    · rintro ⟨small, fits, ⟨tif, isTif⟩, stp, isStp⟩
      exact ⟨layout.command tif stp, small, by omega, tif, stp, isTif, isStp, rfl⟩
  · rw [unpackAddOrder, if_pos (by omega)]
    simp only [throwRuntime, reduceCtorEq, exists_false, false_iff]
    omega

theorem accepts_cancel (payload : Bytes) : (∃ cmd, unpackCancelOrder payload = .ok cmd) ↔
    9 + (getU8 payload 0).toNat ≤ payload.length := by
  by_cases enough : 9 ≤ payload.length
  · obtain ⟨layout, rfl⟩ := exists_cancelLayout enough
    have single : getU8 layout.bytes 0 = layout.symbolLen := rfl
    simp only [unpackCancelOrder_iff, cancelLayout_length, single, exists_and_left, exists_eq', and_true]
    omega
  · rw [unpackCancelOrder, if_pos (by omega)]
    simp only [throwRuntime, reduceCtorEq, exists_false, false_iff]
    omega

theorem accepts_replace (payload : Bytes) : (∃ cmd, unpackReplaceOrder payload = .ok cmd) ↔
    kReplaceHead + (getU8 payload 0).toNat ≤ payload.length ∧ ∃ tif, getU8 payload 1 = tifToCode tif := by
  by_cases enough : kReplaceHead ≤ payload.length
  · obtain ⟨layout, rfl⟩ := exists_replaceLayout enough
    have single : getU8 layout.bytes 0 = layout.symbolLen ∧ getU8 layout.bytes 1 = layout.tif := ⟨rfl, rfl⟩
    simp only [unpackReplaceOrder_iff, replaceLayout_length, single]
    constructor
    · rintro ⟨cmd, fits, tif, isTif, -⟩
      exact ⟨by omega, tif, isTif⟩
    · rintro ⟨fits, tif, isTif⟩
      exact ⟨layout.command tif, by omega, tif, isTif, rfl⟩
  · rw [unpackReplaceOrder, if_pos (by omega)]
    simp only [throwRuntime, reduceCtorEq, exists_false, false_iff]
    omega

/-- What the loop takes off the stream. -/
theorem takes_iff (type : MessageType) (payload : Bytes) : (∃ taken, takeMessage type payload = .ok taken) ↔
    type = .event ∨ (type = .add ∧ ∃ cmd, unpackAddOrder payload = .ok cmd) ∨
    (type = .cancel ∧ ∃ cmd, unpackCancelOrder payload = .ok cmd) ∨
    (type = .replace ∧ ∃ cmd, unpackReplaceOrder payload = .ok cmd) := by
  have mapped : ∀ {α β : Type} (result : Except RuntimeError α) (f : α → β),
      (∃ taken, result.map f = .ok taken) ↔ ∃ value, result = .ok value := by
    intro α β result f
    cases result <;> simp [Except.map]
  unfold takeMessage decodeCommand
  have apart : MessageType.add ≠ .event ∧ MessageType.cancel ≠ .event ∧ MessageType.replace ≠ .event ∧
      MessageType.cancel ≠ .add ∧ MessageType.replace ≠ .add ∧ MessageType.replace ≠ .cancel := by decide
  by_cases event : type = .event
  · simp [event]
  · by_cases add : type = .add
    · simp [add, apart, mapped, apart.2.2.2.1.symm, apart.2.2.2.2.1.symm]
    · by_cases cancel : type = .cancel
      · simp [cancel, apart, mapped, apart.2.2.2.2.2.symm]
      · by_cases replace : type = .replace
        · simp [replace, apart, mapped]
        · simp [event, add, cancel, replace, throwRuntime, Except.map]

/-! ## Packed payloads -/

theorem tif_small (tif : TimeInForce) : 1 ≤ (tifToCode tif).toNat ∧ (tifToCode tif).toNat ≤ 4 := by
  cases tif <;> decide

theorem getU8_take {payload : Bytes} {cut offset : Nat} (inside : offset < cut) :
    getU8 (payload.take cut) offset = getU8 payload offset := by
  simp [getU8, List.getD, inside]

/-- What a type byte in another's place makes of a command: an event, and a
cancel of an add or a replace, always pass; a replace passes as an add if the
second and third byte of its order id are codes of a time in force and of a
self-trade mode. -/
def Confusable : Command → UInt8 → Prop
  | .add _, type => type = 10 ∨ type = 2
  | .cancel _, type => type = 10
  | .replace cmd, type => type = 10 ∨ type = 2 ∨ type = 1 ∧
      (∃ tif, UInt8.ofNat (cmd.orderId.toUInt64.toNat >>> 48) = tifToCode tif) ∧
      ∃ stp, UInt8.ofNat (cmd.orderId.toUInt64.toNat >>> 40) = stpToCode stp

variable {command : Command} {type : MessageType} {payload : Bytes}

/-- No decoder accepts less than the whole payload. -/
theorem cut_short_refused (sent : SentAs command type payload) {cut : Nat} (short : cut < payload.length) :
    ¬ ∃ taken, takeMessage type (payload.take cut) = .ok taken := by
  have size : (payload.take cut).length = cut := List.length_take_of_le (by omega)
  rw [takes_iff, accepts_add, accepts_cancel, accepts_replace, size]
  cases sent with
  | add packed =>
    have length := packed_length_add packed
    rintro (event | ⟨-, -, fits, -⟩ | ⟨other, -⟩ | ⟨other, -⟩)
    · exact absurd event (by decide)
    · rw [kHeaderSize] at fits length
      rw [getU8_take (by omega), getU8_take (by omega)] at fits
      omega
    · exact absurd other (by decide)
    · exact absurd other (by decide)
  | cancel packed =>
    have length := packed_length_cancel packed
    rintro (event | ⟨other, -⟩ | ⟨-, fits⟩ | ⟨other, -⟩)
    · exact absurd event (by decide)
    · exact absurd other (by decide)
    · rw [getU8_take (by omega)] at fits
      omega
    · exact absurd other (by decide)
  | replace packed =>
    have length := packed_length_replace packed
    rintro (event | ⟨other, -⟩ | ⟨other, -⟩ | ⟨-, fits, -⟩)
    · exact absurd event (by decide)
    · exact absurd other (by decide)
    · exact absurd other (by decide)
    · rw [kReplaceHead] at fits length
      rw [getU8_take (by omega)] at fits
      omega

/-- The types a payload is taken under. -/
theorem taken_iff (other : UInt8) (payload : Bytes) : (∃ taken, takeMessage ⟨other⟩ payload = .ok taken) ↔
    other = 10 ∨ (other = 1 ∧ ∃ cmd, unpackAddOrder payload = .ok cmd) ∨
    (other = 2 ∧ ∃ cmd, unpackCancelOrder payload = .ok cmd) ∨
    (other = 3 ∧ ∃ cmd, unpackReplaceOrder payload = .ok cmd) := by
  rw [takes_iff]
  simp only [MessageType.event, MessageType.add, MessageType.cancel, MessageType.replace, MessageType.mk.injEq]

/-- An add also passes as a cancel. -/
theorem add_taken_iff {cmd : AddOrder} (packed : packAddOrder cmd = .ok payload) {other : UInt8}
    (changed : other ≠ 1) :
    (∃ taken, takeMessage ⟨other⟩ payload = .ok taken) ↔ Confusable (.add cmd) other := by
  have length := packed_length_add packed
  rw [kHeaderSize] at length
  rw [taken_iff, accepts_cancel, accepts_replace]
  constructor
  · rintro (event | ⟨own, -⟩ | ⟨cancel, -⟩ | ⟨-, fits, tif, isTif⟩)
    · exact .inl event
    · exact absurd own changed
    · exact .inr cancel
    · -- The byte read as a time in force is the participant's length, which is then at least 5.
      have small := tif_small tif
      rw [kReplaceHead] at fits
      rw [← isTif] at small
      omega
  · rintro (event | cancel)
    · exact .inl event
    · exact .inr (.inr (.inl ⟨cancel, by omega⟩))

/-- A cancel is too short for anything else. -/
theorem cancel_taken_iff {cmd : CancelOrder} (packed : packCancelOrder cmd = .ok payload) {other : UInt8}
    (changed : other ≠ 2) :
    (∃ taken, takeMessage ⟨other⟩ payload = .ok taken) ↔ Confusable (.cancel cmd) other := by
  have length := packed_length_cancel packed
  rw [taken_iff, accepts_add, accepts_replace]
  constructor
  · rintro (event | ⟨-, -, fits, -⟩ | ⟨own, -⟩ | ⟨-, fits, -⟩)
    · exact event
    · rw [kHeaderSize] at fits
      omega
    · exact absurd own changed
    · rw [kReplaceHead] at fits
      omega
  · exact .inl

/-- A replace also passes as a cancel, and as an add if its order id has the codes. -/
theorem replace_taken_iff {cmd : ReplaceOrder} (packed : packReplaceOrder cmd = .ok payload) {other : UInt8}
    (changed : other ≠ 3) :
    (∃ taken, takeMessage ⟨other⟩ payload = .ok taken) ↔ Confusable (.replace cmd) other := by
  have length := packed_length_replace packed
  rw [kReplaceHead] at length
  have first := (getU8 payload 0).toNat_lt
  obtain ⟨-, rfl⟩ := (packReplaceOrder_iff cmd payload).mp packed
  have tif : getU8 (replaceLayout cmd).bytes 1 = tifToCode cmd.timeInForce := rfl
  have idBytes : getU8 (replaceLayout cmd).bytes 3 = UInt8.ofNat (cmd.orderId.toUInt64.toNat >>> 48) ∧
      getU8 (replaceLayout cmd).bytes 4 = UInt8.ofNat (cmd.orderId.toUInt64.toNat >>> 40) := ⟨rfl, rfl⟩
  have small := tif_small cmd.timeInForce
  rw [taken_iff, accepts_add, accepts_cancel, Confusable, ← idBytes.1, ← idBytes.2]
  constructor
  · rintro (event | ⟨add, -, -, codes⟩ | ⟨cancel, -⟩ | ⟨own, -⟩)
    · exact .inl event
    · exact .inr (.inr ⟨add, codes⟩)
    · exact .inr (.inl cancel)
    · exact absurd own changed
  · rintro (event | cancel | ⟨add, codes⟩)
    · exact .inl event
    · exact .inr (.inr (.inl ⟨cancel, by omega⟩))
    · refine .inr (.inl ⟨add, by omega, ?_, codes⟩)
      rw [tif, kHeaderSize]
      omega

/-- The whole payload under another type. -/
theorem other_type_taken_iff (sent : SentAs command type payload) {other : UInt8} (changed : other ≠ type.code) :
    (∃ taken, takeMessage ⟨other⟩ payload = .ok taken) ↔ Confusable command other := by
  cases sent with
  | add packed => exact add_taken_iff packed changed
  | cancel packed => exact cancel_taken_iff packed changed
  | replace packed => exact replace_taken_iff packed changed

/-! ## One wrong byte -/

/-- A wrong length waits for more bytes or cuts the payload short. -/
theorem wrong_length_refused (sent : SentAs command type payload) {len check : Bytes} (width : len.length = 4)
    (size : check.length = 4) (wrong : BigEndian.get len ≠ payload.length) :
    Refused (type.code :: (len ++ (payload ++ check))) := by
  rw [refused_header type.code width, List.length_append, size]
  rcases Nat.lt_or_gt_of_ne wrong with less | more
  · refine .inr (.inr ?_)
    rw [List.take_append_of_le_length (by omega)]
    exact cut_short_refused sent less
  · exact .inl (by omega)

/-- A payload that does not have the checksum sent with it. -/
theorem mismatch_refused {len check : Bytes} (width : len.length = 4) (size : check.length = 4)
    (length : BigEndian.get len = payload.length) (mismatch : crc32 payload ≠ UInt32.ofNat (BigEndian.get check)) :
    Refused (type.code :: (len ++ (payload ++ check))) := by
  rw [refused_header type.code width]
  refine .inr (.inl ?_)
  rw [length, List.take_left, List.drop_left, List.take_of_length_le size.le]
  exact mismatch

/-- Another type byte. -/
theorem other_type_refused_iff (sent : SentAs command type payload) {other : UInt8} (changed : other ≠ type.code) :
    Refused (frameMessage ⟨other⟩ payload) ↔ ¬ Confusable command other := by
  rw [frame_shape, refused_header other (putU32_length _), get_putU32, UInt32.toNat_ofNat_of_lt' (sentAs_short sent),
    List.take_left, List.drop_left, List.take_of_length_le (putU32_length _).le, get_putU32, UInt32.ofNat_toNat,
    other_type_taken_iff sent changed]
  simp

/-- A wrong checksum. -/
theorem wrong_check_refused {len check : Bytes} (width : len.length = 4) (size : check.length = 4)
    (length : BigEndian.get len = payload.length) (wrong : check ≠ putU32 (crc32 payload)) :
    Refused (type.code :: (len ++ (payload ++ check))) := by
  refine mismatch_refused width size length fun same => wrong ?_
  have fits := BigEndian.get_lt check
  rw [size] at fits
  refine BigEndian.get_injective (by simp [size]) ?_
  rw [get_putU32, same, UInt32.toNat_ofNat_of_lt' fits]

/-- One byte of the frame of any command exchanged: nothing is taken, except
that a type byte may be exchanged for one under which the payload still passes. -/
theorem corrupted_refused_iff (command : Command) (wire : Bytes) (encoded : encodeCommand command = .ok wire)
    (pos : Nat) (b : UInt8) (changed : wire.set pos b ≠ wire) :
    Refused (wire.set pos b) ↔ ¬ (pos = 0 ∧ Confusable command b) := by
  obtain ⟨type, payload, sent, rfl⟩ := encodeCommand_sentAs encoded
  have length : BigEndian.get (putU32 (UInt32.ofNat payload.length)) = payload.length := by
    rw [get_putU32, UInt32.toNat_ofNat_of_lt' (sentAs_short sent)]
  rw [frame_shape] at changed ⊢
  cases pos with
  | zero =>
    have other : b ≠ type.code := by
      rintro rfl
      exact changed rfl
    rw [List.set_cons_zero, ← frame_shape ⟨b⟩, other_type_refused_iff sent other]
    simp
  | succ pos =>
    -- Behind the type byte the frame is the length, the payload and the checksum.
    refine iff_of_true ?_ (by simp)
    rw [List.set_cons_succ, List.set_append] at changed ⊢
    split at changed
    · rename_i inLength
      rw [if_pos inLength]
      refine wrong_length_refused sent (by simp) (putU32_length _) fun same => changed ?_
      rw [BigEndian.get_injective (by simp) (same.trans length.symm)]
    · rename_i inLength
      rw [if_neg inLength]
      rw [List.set_append] at changed ⊢
      split at changed
      · rename_i inPayload
        rw [if_pos inPayload]
        refine mismatch_refused (putU32_length _) (putU32_length _) (by rw [length, List.length_set]) ?_
        rw [get_putU32, UInt32.ofNat_toNat]
        exact ByteErrors.crc32_set fun same => changed (by rw [same])
      · rename_i inPayload
        rw [if_neg inPayload]
        exact wrong_check_refused (putU32_length _) (by simp) length fun same => changed (by rw [same])

def replaceSeven : ReplaceOrder :=
  { symbol := ascii "S", orderId := 7, newOrderId := 8, newPriceTicks := 100, newQuantity := 2 }

theorem replace_seven_refused_iff : ∃ wire, encodeCommand (.replace replaceSeven) = .ok wire ∧
    (Refused (wire.set 6 9) ↔ ¬ (6 = 0 ∧ Confusable (.replace replaceSeven) 9)) :=
  ⟨_, rfl, corrupted_refused_iff (.replace replaceSeven) _ rfl 6 9 (by decide +kernel)⟩

/-- With the type byte of a cancel in its place, a replace is taken as a cancel. -/
theorem replace_is_taken_as_cancel :
    ¬ ∀ (command : Command) (wire : Bytes) (pos : Nat) (b : UInt8), encodeCommand command = .ok wire →
      wire.set pos b ≠ wire → Refused (wire.set pos b) := by
  intro always
  have packed := (packReplaceOrder_iff replaceSeven _).mpr ⟨by decide, rfl⟩
  have encoded : encodeCommand (.replace replaceSeven) =
      .ok (frameMessage .replace (replaceLayout replaceSeven).bytes) := by
    simp only [encodeCommand, packed, Except.map]
  have refused := always _ _ 0 2 encoded (by decide +kernel)
  exact (other_type_refused_iff (.replace packed) (by decide)).mp refused (.inr (.inl rfl))

end Exchange.FrameIntegrity
