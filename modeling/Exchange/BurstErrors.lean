import Exchange.ByteErrors
import Exchange.Frames
import Exchange.WalLog

/-! The checksum of `checksum.hpp` is the cyclic redundancy check it is named
after, taken bit by bit. Thirty-two bits in a row are told apart by the
register and nothing behind them undoes the difference, so a burst of up to
four bytes changes the checksum, and neither the log nor the wire passes it. -/
namespace Exchange
open BitwiseCrc

/-- The bits of a byte, the lowest first. -/
def byteBits (b : UInt8) : List Bool := (List.range 8).map b.toBitVec.getLsbD

/-- CRC-32 with the reflected polynomial, one bit of the message at a time. -/
def serialCrc32 (data : Bytes) (seed : UInt32) : UInt32 :=
  ~~~ UInt32.ofBitVec ((data.flatMap byteBits).foldl (takeBit ByteErrors.poly) (~~~seed).toBitVec)

/-- Of one length, different, and the same outside some four bytes in a row. -/
structure Burst (sent arrived : Bytes) : Prop where
  length : sent.length = arrived.length
  different : sent ≠ arrived
  window : ∃ start, ∀ i, i < start ∨ start + 4 ≤ i → sent[i]? = arrived[i]?

namespace BurstErrors
open ByteErrors WalLog Frames

/-! ## Bit by bit -/

theorem word_byteBits (b : UInt8) : (word (byteBits b) : BitVec 32) = b.toUInt32.toBitVec := by
  have wide : b.toUInt32.toBitVec = b.toBitVec.setWidth 32 := rfl
  apply BitVec.eq_of_getLsbD_eq
  intro i inside
  rw [getLsbD_word, wide, BitVec.getLsbD_setWidth, byteBits]
  by_cases low : i < 8
  · simp [low]
  · rw [List.getD_eq_default _ _ (by simpa using low), BitVec.getLsbD_of_ge _ _ (by omega)]

/-- A byte of the table-driven loop is its eight bits. -/
theorem crcStep_bits (crc : UInt32) (b : UInt8) :
    (crcStep crc b).toBitVec = (byteBits b).foldl (takeBit poly) crc.toBitVec := by
  rw [takeBits _ (by simp [byteBits]), word_byteBits, crcStep_steps]
  simp [byteBits]

theorem crcSteps_bits (data : Bytes) (crc : UInt32) :
    (data.foldl crcStep crc).toBitVec = (data.flatMap byteBits).foldl (takeBit poly) crc.toBitVec := by
  induction data generalizing crc with
  | nil => rfl
  | cons b data ih => rw [List.foldl_cons, ih, crcStep_bits, List.flatMap_cons, List.foldl_append]

/-- The table-driven checksum is the bit-serial one, from any seed, and goes on
from the checksum of what came before. -/
theorem crc32_is_serial (data more : Bytes) (seed : UInt32) :
    crc32 data seed = serialCrc32 data seed ∧ crc32 (data ++ more) seed = crc32 more (crc32 data seed) := by
  constructor
  · rw [crc32, serialCrc32, ← crcSteps_bits]
  · rw [crc32, crc32, crc32, UInt32.not_not, List.foldl_append]

/-! ## Bursts -/

theorem byteBits_injective : Function.Injective byteBits := by
  intro b b' same
  have words : b.toUInt32 = b'.toUInt32 := by
    rw [← UInt32.toBitVec_inj, ← word_byteBits, ← word_byteBits, same]
  rw [← UInt8.toUInt8_toUInt32 b, words, UInt8.toUInt8_toUInt32]

theorem bits_length (data : Bytes) : (data.flatMap byteBits).length = 8 * data.length := by
  induction data with
  | nil => rfl
  | cons b data ih =>
    rw [List.flatMap_cons, List.length_append, ih, List.length_cons, byteBits, List.length_map, List.length_range]
    omega

theorem bits_injective {data data' : Bytes} (same : data.flatMap byteBits = data'.flatMap byteBits) : data = data' := by
  have size : data.length = data'.length := by
    have counted := congrArg List.length same
    rw [bits_length, bits_length] at counted
    omega
  induction data generalizing data' with
  | nil => exact (List.eq_nil_of_length_eq_zero size.symm).symm
  | cons b data ih =>
    obtain ⟨b', data', rfl⟩ := List.exists_cons_of_length_eq_add_one size.symm
    rw [List.flatMap_cons, List.flatMap_cons] at same
    obtain ⟨first, rest⟩ := List.append_inj same (by simp [byteBits])
    rw [byteBits_injective first, ih rest (Nat.succ.inj size)]

/-- From one register, up to four bytes lead to as many registers as there are of them. -/
theorem crcSteps_short {data data' : Bytes} (short : data.length ≤ 4) (size : data.length = data'.length)
    (crc : UInt32) (same : data.foldl crcStep crc = data'.foldl crcStep crc) : data = data' := by
  have registers := congrArg UInt32.toBitVec same
  have bits : (data.flatMap byteBits).length = (data'.flatMap byteBits).length := by
    rw [bits_length, bits_length, size]
  have fits : (data.flatMap byteBits).length ≤ 32 := by
    rw [bits_length]
    omega
  rw [crcSteps_bits, crcSteps_bits, takeBits _ fits, takeBits _ (bits ▸ fits), ← bits] at registers
  have words := BitVec.xor_right_inj _ |>.mp (steps_injective poly_top _ registers)
  exact bits_injective (word_injective fits bits words)

variable {sent arrived : Bytes}

/-- Around the window the two are the same. -/
theorem burst_parts (burst : Burst sent arrived) : ∃ front back window window' : Bytes,
    sent = front ++ (window ++ back) ∧ arrived = front ++ (window' ++ back) ∧
      window.length ≤ 4 ∧ window.length = window'.length ∧ window ≠ window' := by
  obtain ⟨start, outside⟩ := burst.window
  have front : arrived.take start = sent.take start := by
    refine List.ext_getElem? fun i => ?_
    rw [List.getElem?_take, List.getElem?_take]
    split
    · rename_i before
      exact (outside i (.inl before)).symm
    · rfl
  have back : arrived.drop (start + 4) = sent.drop (start + 4) := by
    refine List.ext_getElem? fun i => ?_
    rw [List.getElem?_drop, List.getElem?_drop]
    exact (outside _ (.inr (Nat.le_add_right ..))).symm
  have split : ∀ data : Bytes, data = data.take start ++ ((data.drop start).take 4 ++ data.drop (start + 4)) := by
    intro data
    rw [← List.drop_drop, List.take_append_drop, List.take_append_drop]
  have shape := split arrived
  rw [front, back] at shape
  refine ⟨_, _, _, _, split sent, shape, List.length_take_le .., ?_, ?_⟩
  · rw [List.length_take, List.length_take, List.length_drop, List.length_drop, burst.length]
  · intro same
    rw [← same] at shape
    exact burst.different ((split sent).trans shape.symm)

theorem crc32_burst (burst : Burst sent arrived) (seed : UInt32) : crc32 arrived seed ≠ crc32 sent seed := by
  obtain ⟨front, back, window, window', rfl, rfl, short, size, different⟩ := burst_parts burst
  intro same
  have registers := UInt32.not_inj.mp same.symm
  rw [List.foldl_append, List.foldl_append, List.foldl_append, List.foldl_append] at registers
  exact different (crcSteps_short short size _ (crcSteps_injective back registers))

/-! ## Logs -/

/-- Whole lines stand for themselves, whatever follows. -/
theorem linesFrom_whole (line front rest : Bytes) :
    linesFrom line (front ++ byte '\n' :: rest) = linesFrom line (front ++ [byte '\n']) ++ lines rest := by
  induction front generalizing line with
  | nil => rw [List.nil_append, List.nil_append, linesFrom_break, linesFrom_break]; rfl
  | cons c front ih =>
    rw [List.cons_append, List.cons_append, linesFrom, linesFrom]
    split
    · rw [ih, List.cons_append]
    · exact ih _

theorem lines_append {front : Bytes} (ended : ∀ c ∈ front.getLast?, c = byte '\n') (rest : Bytes) :
    lines (front ++ rest) = lines front ++ lines rest := by
  rcases List.eq_nil_or_concat front with rfl | ⟨front, c, rfl⟩
  · rfl
  · have last : c = byte '\n' := ended c (by simp)
    rw [last, List.concat_eq_append, List.append_assoc]
    exact linesFrom_whole [] front rest

/-- A line with nothing or a break behind it. -/
theorem lines_first {line tail : Bytes} (unbroken : ∀ c ∈ line, c ≠ byte '\n') (filled : line ≠ [])
    (behind : ∀ c ∈ tail.head?, c = byte '\n') : ∃ after, lines (line ++ tail) = line :: after := by
  cases tail with
  | nil =>
    rw [List.append_nil]
    exact ⟨[], lines_unended unbroken filled⟩
  | cons c tail =>
    rw [behind c rfl]
    exact ⟨lines tail, lines_break unbroken tail⟩

/-- Behind a line that ends the log nothing is read. -/
theorem replayLines_stops {rest : List Bytes} (stops : replayLines rest = .ok []) (before : List Bytes) :
    replayLines (before ++ rest) = replayLines before := by
  induction before with
  | nil => exact stops
  | cons line before ih => rw [List.cons_append, replayLines, replayLines, ih]

/-- A record line whose text has another checksum ends the log. -/
theorem replay_rejects {front field body tail : Bytes} (ended : ∀ c ∈ front.getLast?, c = byte '\n')
    (behind : ∀ c ∈ tail.head?, c = byte '\n') (size : field.length = 8)
    (plain : ∀ c ∈ field ++ body, c ≠ byte '\n')
    (last : body.getLast? ≠ some (byte '\r')) (wrong : crc32 body ≠ strtoul16 field) :
    replayLines (lines (front ++ ((field ++ byte ' ' :: body) ++ tail))) = replayLines (lines front) := by
  have unbroken : ∀ c ∈ field ++ byte ' ' :: body, c ≠ byte '\n' := by
    intro c member
    rw [List.mem_append, List.mem_cons] at member
    rcases member with inField | rfl | inBody
    · exact plain c (List.mem_append_left _ inField)
    · decide
    · exact plain c (List.mem_append_right _ inBody)
  obtain ⟨after, first⟩ := lines_first unbroken (by simp) behind
  rw [lines_append ended, first]
  refine replayLines_stops ?_ (lines front)
  rw [replayLines_fields size last, if_pos wrong]

/-! ## Frames -/

/-- The bytes from an offset on, with what stands behind the type and the length field exchanged. -/
theorem drop_exchanged {data : Bytes} {offset : Nat} {type : UInt8} {len rest : Bytes} (width : len.length = 4)
    (shape : data.drop offset = type :: (len ++ rest)) (size : Nat) (arrived : Bytes) :
    (data.take (offset + 5) ++ (arrived ++ data.drop (offset + 5 + size))).drop offset =
      type :: (len ++ (arrived ++ rest.drop size)) := by
  have long := congrArg List.length shape
  rw [List.length_drop, List.length_cons, List.length_append, width] at long
  have head : (data.take (offset + 5)).drop offset = type :: len := by
    rw [List.drop_take, shape, Nat.add_sub_cancel_left, List.take_succ_cons, List.take_left' width]
  have behind : data.drop (offset + 5 + size) = rest.drop size := by
    have five : (type :: len).length = 5 := by rw [List.length_cons, width]
    rw [← List.drop_drop, ← List.drop_drop, shape, ← List.cons_append, List.drop_left' five]
  rw [List.drop_append_of_le_length (by rw [List.length_take]; omega), head, behind, List.cons_append]

/-- A frame whose payload is exchanged for one of its length with another checksum. -/
theorem parseFrame_rejects {data : Bytes} {offset next : Nat} {type : MessageType} {sent arrived : Bytes}
    (size : sent.length = arrived.length) (wrong : crc32 arrived ≠ crc32 sent)
    (parsed : parseFrame data offset = .ok (some (type, sent, next))) :
    parseFrame (data.take (offset + 5) ++ (arrived ++ data.drop (offset + 5 + sent.length))) offset =
      throwRuntime "frame crc mismatch" := by
  rw [parseFrame_drop] at parsed ⊢
  have found : parseFrame (data.drop offset) 0 ≠ .ok none := by
    intro none
    rw [none] at parsed
    cases parsed
  obtain ⟨first, len, rest, shape, width⟩ := frame_head found
  rw [shape, parseFrame_header first width] at parsed
  split at parsed
  · cases parsed
  rename_i enough
  split at parsed
  · cases parsed
  rename_i matched
  simp only [Except.map, Option.map_some, Except.ok.injEq, Option.some.injEq, Prod.mk.injEq] at parsed
  obtain ⟨-, rfl, -⟩ := parsed
  have length : (rest.take (BigEndian.get len)).length = BigEndian.get len := List.length_take_of_le (by omega)
  have whole : ¬ (arrived ++ rest.drop (BigEndian.get len)).length < BigEndian.get len + 4 := by
    rw [List.length_append, List.length_drop, ← size, length]
    omega
  rw [length, drop_exchanged width shape, parseFrame_header first width, if_neg whole,
    List.take_left' (size.symm.trans length), List.drop_left' (size.symm.trans length), if_pos]
  · rfl
  · rwa [← not_ne_iff.mp matched]

/-! ## Detection -/

/-- A burst of up to four bytes changes the checksum. Where the checksum field is
that of the text sent, replay ends before such a record and the frame is refused. -/
theorem bursts_detected (sent arrived : Bytes) (burst : Burst sent arrived) :
    (∀ seed, crc32 sent seed ≠ crc32 arrived seed) ∧
    (∀ (store : WalStore) (front field tail : Bytes), (∀ c ∈ front.getLast?, c = byte '\n') →
      (∀ c ∈ tail.head?, c = byte '\n') → field.length = 8 → strtoul16 field = crc32 sent →
      (∀ c ∈ field ++ arrived, c ≠ byte '\n') → arrived.getLast? ≠ some (byte '\r') →
      store.flush.files.wal = front ++ ((field ++ byte ' ' :: arrived) ++ tail) →
      store.replayCommands.map Prod.snd = replayLines (lines front)) ∧
    ∀ (data : Bytes) (offset : Nat) (type : MessageType) (next : Nat),
      parseFrame data offset = .ok (some (type, sent, next)) →
      parseFrame (data.take (offset + 5) ++ (arrived ++ data.drop (offset + 5 + sent.length))) offset =
        throwRuntime "frame crc mismatch" := by
  refine ⟨fun seed => (crc32_burst burst seed).symm, ?_, ?_⟩
  · intro store front field tail ended behind size intact plain last wal
    have wrong : crc32 arrived ≠ strtoul16 field := intact ▸ crc32_burst burst 0
    have read := replay_rejects ended behind size plain last wrong
    rw [WalStore.replayCommands, wal, read]
    cases replayLines (lines front) <;> rfl
  · intro data offset type next parsed
    exact parseFrame_rejects burst.length (crc32_burst burst 0) parsed

/-- An empty object with both bytes replaced, in a log of its own and as a payload. -/
theorem brackets_detected :
    crc32 (ascii "{}") ≠ crc32 (ascii "[]") ∧
    (WalStore.open_ { wal := framed (crc32 (ascii "{}")) (ascii "[]") }).replayCommands.map Prod.snd = .ok [] ∧
    parseFrame (1 :: (putU32 2 ++ (ascii "[]" ++ putU32 (crc32 (ascii "{}"))))) 0 =
      throwRuntime "frame crc mismatch" := by
  have burst : Burst (ascii "{}") (ascii "[]") :=
    ⟨by decide, by decide, 0, fun i outside => by
      have beyond : 4 ≤ i := by omega
      rw [List.getElem?_eq_none (Nat.le_trans (by decide) beyond),
        List.getElem?_eq_none (Nat.le_trans (by decide) beyond)]⟩
  obtain ⟨checks, log, frame⟩ := bursts_detected (ascii "{}") (ascii "[]") burst
  refine ⟨checks 0, ?_, ?_⟩
  · refine log _ [] (paddedHex 8 (crc32 (ascii "{}")).toNat) [] (by simp) (by simp) (paddedHex_length ..)
      (strtoul16_paddedHex _) ?_ (by decide) (by simp [WalStore.open_, WalStore.flush, framed])
    intro c member
    rcases List.mem_append.mp member with inField | inText
    · obtain ⟨digit, rfl⟩ := JsonRoundTrip.mem_paddedHex inField
      exact (hexDigit_read digit).2.2.2.2.2.2.2.1
    · rintro rfl
      exact absurd inText (by decide)
  · exact frame (frameMessage .add (ascii "{}")) 0 .add 11 (frame_parses .add (by decide))

end BurstErrors
end Exchange
