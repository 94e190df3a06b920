import Exchange.ByteErrors
import Exchange.JsonPrefix
import Exchange.TornTail

/-! One damaged byte of a log. A wrong checksum ends the log, as it should, but
a line without its blank in the ninth place is passed over, and a line that
lost its break takes the next one with it: what follows is then read behind the
gap. -/
namespace Exchange.WalDamage
open Json JsonRoundTrip JsonPrefix WalLog TornTail

/-- The files of a store that appended these records and was closed, with one
byte of the log replaced. -/
def damagedFiles (records : List Json) (position : Nat) (b : UInt8) : Files :=
  let files := (records.foldl WalStore.append (.open_ {})).close.files
  { files with wal := files.wal.set position b }

/-- What a new store reads is a front of what was appended, so no record is read
behind one that is not. -/
def NeverSkips (records : List Json) (position : Nat) (b : UInt8) : Prop :=
  ∀ store commands, (WalStore.open_ (damagedFiles records position b)).replayCommands = .ok (store, commands) →
    commands <+: records

/-- All that follows is one record again and again. -/
def Repeats (record : Json) (after : List Json) : Prop := ∀ later ∈ after, later = record

/-- A line break within the first nine bytes of a line makes two lines of it.
The second one is no record line and hides only repetitions, or its checksum
ends the log, or it is read as the record it was cut from. -/
def SplitContained (record : Json) (offset : Nat) (after : List Json) : Prop :=
  let tail := (recordText record).drop (offset + 1)
  if tail.length < 9 ∨ tail[8]? ≠ some (byte ' ') then Repeats record after
  else crc32 (tail.drop 9) = strtoul16 (tail.take 8) →
    ∀ other, Json.parse (tail.drop 9) = .ok other → other = record

/-- Without its line break a line takes in the next one. That ends the log, or
by a coincidence of checksums hides one of several repetitions. -/
def FusedContained (record : Json) (b : UInt8) : List Json → Prop
  | [] => True
  | next :: more => crc32 (record.dump ++ b :: recordText next) = crc32 record.dump → Repeats next more

/-- Damage to one byte of a line that does not make replay skip. -/
def Contained (record : Json) (offset : Nat) (b : UInt8) (after : List Json) : Prop :=
  if b = byte '\n' then offset ≤ 8 → SplitContained record offset after
  else if offset = 8 then b = byte ' ' ∨ Repeats record after
  else if offset = (recordText record).length then FusedContained record b after
  else True

/-- The same for a byte of the whole log. -/
def LogContained : List Json → Nat → UInt8 → Prop
  | [], _, _ => True
  | record :: after, position, b =>
    if position < (recordLine record).length then Contained record position b after
    else LogContained after (position - (recordLine record).length) b

variable {record : Json} {after : List Json} {offset : Nat} {b : UInt8}

/-! ## Reading -/

/-- A text is read as a front of the records, or not at all. -/
def ReadsFront (records : List Json) (read : Except JsonError (List Json)) : Prop :=
  ∀ commands, read = .ok commands → commands <+: records

theorem readsFront_ok (records commands : List Json) : ReadsFront records (.ok commands) ↔ commands <+: records := by
  simp [ReadsFront]

theorem readsFront_error (records : List Json) (fault : JsonError) : ReadsFront records (.error fault) := by
  intro commands read
  cases read

theorem readsFront_cons (record : Json) (after : List Json) (read : Except JsonError (List Json)) :
    ReadsFront (record :: after) (read.map (record :: ·)) ↔ ReadsFront after read := by
  cases read with
  | error fault => simp [Except.map, readsFront_error]
  | ok commands => simp [Except.map, readsFront_ok]

/-- Without its first record the rest of a log is a front of it only if it repeats that record. -/
theorem prefix_repeats (record : Json) (after : List Json) : after <+: record :: after ↔ Repeats record after := by
  induction after with
  | nil => simp [Repeats]
  | cons next after ih =>
    rw [List.cons_prefix_cons]
    constructor
    · rintro ⟨rfl, later⟩ other member
      rcases List.mem_cons.mp member with rfl | inside
      · rfl
      · exact ih.mp later other inside
    · intro same
      have first : next = record := same next (by simp)
      subst first
      exact ⟨rfl, ih.mpr fun other member => same other (List.mem_cons_of_mem _ member)⟩

/-- A line with a blank in the ninth place ends the log or is parsed. -/
theorem readsFront_fields (records : List Json) {field body : Bytes} (size : field.length = 8)
    (last : body.getLast? ≠ some (byte '\r')) (rest : List Bytes) :
    ReadsFront records (replayLines ((field ++ byte ' ' :: body) :: rest)) ↔
      (crc32 body = strtoul16 field → ∀ command, Json.parse body = .ok command →
        ReadsFront records ((replayLines rest).map (command :: ·))) := by
  rw [replayLines_fields size last]
  by_cases matched : crc32 body = strtoul16 field
  · rw [if_neg (by simpa using matched)]
    cases Json.parse body with
    | error fault => simp [matched, Except.bind, readsFront_error]
    | ok command => simp [matched, Except.bind]
  · rw [if_pos matched]
    simp [matched, readsFront_ok]

theorem readsFront_framed (records : List Json) (word : UInt32) {body : Bytes}
    (last : body.getLast? ≠ some (byte '\r')) (rest : List Bytes) :
    ReadsFront records (replayLines (framed word body :: rest)) ↔
      (crc32 body = word → ∀ command, Json.parse body = .ok command →
        ReadsFront records ((replayLines rest).map (command :: ·))) := by
  have fields := readsFront_fields records (paddedHex_length 8 word.toNat) last rest
  rwa [strtoul16_paddedHex] at fields

/-! ## One line -/

theorem set_unbroken {line : Bytes} (unbroken : ∀ c ∈ line, c ≠ byte '\n') (other : b ≠ byte '\n')
    (offset : Nat) :
    ∀ c ∈ line.set offset b, c ≠ byte '\n' := by
  intro c member
  rcases List.mem_or_eq_of_mem_set member with inside | rfl
  · exact unbroken c inside
  · exact other

/-- A byte before the line break is exchanged for one that is no line break. -/
theorem lines_set (plain : doubleFree record = true) (within : offset < (recordText record).length)
    (other : b ≠ byte '\n') (after : List Json) :
    lines ((recordLine record).set offset b ++ logOf after) =
      (recordText record).set offset b :: lines (logOf after) := by
  rw [recordLine_eq, List.set_append_left _ _ within, List.append_assoc]
  exact lines_break (set_unbroken (recordText_unbroken record plain) other offset) (logOf after)

/-- A line break divides the line. -/
theorem lines_split (plain : doubleFree record = true) (within : offset < (recordText record).length)
    (after : List Json) :
    lines ((recordLine record).set offset (byte '\n') ++ logOf after) =
      (recordText record).take offset :: (recordText record).drop (offset + 1) :: lines (logOf after) := by
  have unbroken := recordText_unbroken record plain
  rw [recordLine_eq, List.set_append_left _ _ within, List.set_eq_take_append_cons_drop, if_pos within,
    List.append_assoc, List.append_assoc, List.cons_append,
    lines_break fun c member => unbroken c (List.mem_of_mem_take member)]
  congr 1
  exact lines_break (fun c member => unbroken c (List.mem_of_mem_drop member)) (logOf after)

/-- Whatever the checksum field says, the text of the record is taken for
nothing else. -/
theorem readsFront_own (plain : doubleFree record = true) (plainAfter : ∀ later ∈ after, doubleFree later = true)
    {field : Bytes} (size : field.length = 8) :
    ReadsFront (record :: after)
      (replayLines ((field ++ byte ' ' :: record.dump) :: lines (logOf after))) := by
  have last : record.dump.getLast? ≠ some (byte '\r') := dump_not_return record plain []
  rw [readsFront_fields _ size last]
  intro _ command read
  rw [parse_dump record plain] at read
  cases read
  rw [replayLines_log after plainAfter]
  exact (readsFront_ok _ _).mpr List.prefix_rfl

theorem damaged_field (plain : doubleFree record = true) (plainAfter : ∀ later ∈ after, doubleFree later = true)
    (inField : offset < 8) (other : b ≠ byte '\n') :
    ReadsFront (record :: after) (replayLines (lines ((recordLine record).set offset b ++ logOf after))) := by
  have size := paddedHex_length 8 (crc32 record.dump).toNat
  have width := recordText_length record
  rw [lines_set plain (by omega) other, recordText, framed, List.set_append_left _ _ (by omega)]
  exact readsFront_own plain plainAfter (by rw [List.length_set, size])

/-- Without the blank the line is passed over. -/
theorem damaged_blank (plain : doubleFree record = true) (plainAfter : ∀ later ∈ after, doubleFree later = true)
    (other : b ≠ byte '\n') :
    ReadsFront (record :: after) (replayLines (lines ((recordLine record).set 8 b ++ logOf after))) ↔
      b = byte ' ' ∨ Repeats record after := by
  have size := paddedHex_length 8 (crc32 record.dump).toNat
  have width := recordText_length record
  have shape : (recordText record).set 8 b = paddedHex 8 (crc32 record.dump).toNat ++ b :: record.dump := by
    rw [recordText, framed, List.set_append_right _ _ (by omega), size, List.set_cons_zero]
  rw [lines_set plain (by omega) other, shape]
  by_cases same : b = byte ' '
  · subst same
    exact ⟨fun _ => Or.inl rfl, fun _ => readsFront_own plain plainAfter size⟩
  · have place : (paddedHex 8 (crc32 record.dump).toNat ++ b :: record.dump)[8]? = some b := by
      rw [List.getElem?_append_right (by omega), size]
      rfl
    have last : (paddedHex 8 (crc32 record.dump).toNat ++ b :: record.dump).getLast? ≠ some (byte '\r') := by
      have ending := dump_not_return record plain (paddedHex 8 (crc32 record.dump).toNat ++ [b])
      rwa [List.append_assoc] at ending
    have unblank : (paddedHex 8 (crc32 record.dump).toNat ++ b :: record.dump)[8]? ≠ some (byte ' ') := by
      rw [place]
      exact fun blank => same (Option.some.inj blank)
    rw [replayLines_unblank last unblank, replayLines_log after plainAfter, readsFront_ok, prefix_repeats]
    simp [same]

/-- Fronts of the text that are cut off are never read. -/
theorem readsFront_cut (records : List Json) (object : record.isObject = true) (plain : doubleFree record = true)
    {cut : Nat} (long : 9 ≤ cut) (short : cut < (recordText record).length) (rest : List Bytes) :
    ReadsFront records (replayLines ((recordText record).take cut :: rest)) := by
  have width := recordText_length record
  rw [(torn_shape record (by omega)).2 long, readsFront_framed _ _ (tornBody_not_return plain cut)]
  intro _ command read
  exact absurd read (parse_bracketed_take (Or.inl object) plain (by omega) command)

theorem set_return (plain : doubleFree record = true) {place : Nat}
    (last : (record.dump.set place b).getLast? = some (byte '\r')) :
    b = byte '\r' ∧ place + 1 = record.dump.length := by
  rw [List.getLast?_eq_getElem?, List.length_set, List.getElem?_set] at last
  split at last
  · rename_i ending
    split at last
    · exact ⟨Option.some.inj last, by omega⟩
    · cases last
  · have inside := List.mem_of_getElem? last
    exact absurd (dump_printable record plain _ inside) (by decide)

/-- The text: a wrong checksum ends the log. Only a carriage return in the last
place is taken away before the checksum is compared, and what is left is no
value. -/
theorem damaged_text (object : record.isObject = true) (plain : doubleFree record = true)
    (plainAfter : ∀ later ∈ after, doubleFree later = true) (inText : 9 ≤ offset)
    (within : offset < (recordText record).length) (other : b ≠ byte '\n') :
    ReadsFront (record :: after) (replayLines (lines ((recordLine record).set offset b ++ logOf after))) := by
  have size := paddedHex_length 8 (crc32 record.dump).toNat
  have width := recordText_length record
  obtain ⟨place, rfl⟩ : ∃ place, offset = place + 9 := ⟨offset - 9, by omega⟩
  have shape : (recordText record).set (place + 9) b =
      framed (crc32 record.dump) (record.dump.set place b) := by
    rw [recordText, framed, framed, List.set_append_right _ _ (by omega), size,
      show place + 9 - 8 = place + 1 by omega, List.set_cons_succ]
  rw [lines_set plain within other]
  by_cases last : (record.dump.set place b).getLast? = some (byte '\r')
  · obtain ⟨rfl, ending⟩ := set_return plain last
    have cut : (recordText record).set (place + 9) (byte '\r') =
        (recordText record).take (place + 9) ++ [byte '\r'] := by
      rw [List.set_eq_take_append_cons_drop, if_pos within, List.drop_of_length_le (by omega)]
    have unreturned : ((recordText record).take (place + 9)).getLast? ≠ some (byte '\r') := by
      rw [(torn_shape record (by omega)).2 inText]
      exact line_not_return _ (tornBody_not_return plain (place + 9))
    rw [cut, replayLines_return unreturned]
    exact readsFront_cut _ object plain inText within _
  · rw [shape, readsFront_framed _ _ last]
    intro matched command read
    by_cases changed : record.dump.set place b = record.dump
    · rw [changed, parse_dump record plain] at read
      cases read
      rw [replayLines_log after plainAfter]
      exact (readsFront_ok _ _).mpr List.prefix_rfl
    · exact absurd matched (ByteErrors.crc32_set changed)

/-- A line break in the text leaves a front of the record, which ends the log
or is no value. -/
theorem split_text (records : List Json) (object : record.isObject = true) (plain : doubleFree record = true)
    (inText : 9 ≤ offset) (within : offset < (recordText record).length) (after : List Json) :
    ReadsFront records (replayLines (lines ((recordLine record).set offset (byte '\n') ++ logOf after))) := by
  rw [lines_split plain within]
  exact readsFront_cut records object plain inText within _

/-- A line break before the text leaves a piece that is too short and is passed over. -/
theorem split_field (plain : doubleFree record = true) (plainAfter : ∀ later ∈ after, doubleFree later = true)
    (inField : offset ≤ 8) :
    ReadsFront (record :: after) (replayLines (lines ((recordLine record).set offset (byte '\n') ++ logOf after))) ↔
      SplitContained record offset after := by
  have width := recordText_length record
  have first : ((recordText record).take offset).length < 9 := by
    rw [List.length_take]
    omega
  have shape : (recordText record).drop (offset + 1) =
      (paddedHex 8 (crc32 record.dump).toNat ++ [byte ' ']).drop (offset + 1) ++ record.dump := by
    have whole : recordText record = (paddedHex 8 (crc32 record.dump).toNat ++ [byte ' ']) ++ record.dump := by
      simp [recordText, framed]
    rw [whole, List.drop_append_of_le_length]
    rw [List.length_append, paddedHex_length, List.length_singleton]
    omega
  have last : ((recordText record).drop (offset + 1)).getLast? ≠ some (byte '\r') := by
    rw [shape]
    exact dump_not_return record plain _
  rw [lines_split plain (by omega), replayLines_short first, replayLines_line last,
    replayLines_log after plainAfter, SplitContained]
  generalize (recordText record).drop (offset + 1) = tail
  by_cases unframed : tail.length < 9 ∨ tail[8]? ≠ some (byte ' ')
  · simp only [unframed, ↓reduceIte, readsFront_ok, prefix_repeats]
  · simp only [unframed, ↓reduceIte]
    by_cases matched : crc32 (tail.drop 9) = strtoul16 (tail.take 8)
    · rw [if_neg (by simpa using matched)]
      cases Json.parse (tail.drop 9) with
      | error fault => simp [Except.bind, readsFront_error]
      | ok command => simp [matched, Except.bind, Except.map, readsFront_ok]
    · rw [if_pos matched]
      simp [matched, readsFront_ok]

/-- Without its line break the line continues with the next one. -/
theorem damaged_break (object : record.isObject = true) (plain : doubleFree record = true)
    (plainAfter : ∀ later ∈ after, doubleFree later = true) (other : b ≠ byte '\n') :
    ReadsFront (record :: after)
        (replayLines (lines ((recordLine record).set (recordText record).length b ++ logOf after))) ↔
      FusedContained record b after := by
  have shape : (recordLine record).set (recordText record).length b = recordText record ++ [b] := by
    rw [recordLine_eq, List.set_append_right _ _ le_rfl, Nat.sub_self, List.set_cons_zero]
  have unbroken : ∀ c ∈ recordText record ++ [b], c ≠ byte '\n' := by
    intro c member
    rcases List.mem_append.mp member with inside | inside
    · exact recordText_unbroken record plain c inside
    · rw [List.mem_singleton.mp inside]
      exact other
  rw [shape]
  cases after with
  | nil =>
    simp only [FusedContained, iff_true]
    rw [logOf_nil, List.append_nil, lines_unended unbroken (by simp)]
    by_cases returned : b = byte '\r'
    · have unreturned := recordText_not_return plain []
      rw [List.nil_append] at unreturned
      rw [returned, replayLines_return unreturned, replayLines_recordText record plain]
      exact (readsFront_ok _ _).mpr List.prefix_rfl
    · have longer : recordText record ++ [b] = framed (crc32 record.dump) (record.dump ++ [b]) := by
        simp [recordText, framed]
      rw [longer, readsFront_framed _ _ (by simpa using returned)]
      intro _ command read
      rw [parse_bracketed_append (Or.inl object) plain] at read
      cases read
      exact (readsFront_ok _ _).mpr List.prefix_rfl
  | cons next more =>
    have plainNext := plainAfter next (by simp)
    have text : recordText record ++ [b] ++ logOf (next :: more) =
        (recordText record ++ b :: recordText next) ++ byte '\n' :: logOf more := by
      simp [logOf, recordLine_eq]
    have fused : ∀ c ∈ recordText record ++ b :: recordText next, c ≠ byte '\n' := by
      intro c member
      rw [List.append_cons, List.mem_append] at member
      rcases member with inside | inside
      · exact unbroken c inside
      · exact recordText_unbroken next plainNext c inside
    have longer : recordText record ++ b :: recordText next =
        framed (crc32 record.dump) (record.dump ++ b :: recordText next) := by
      simp [recordText, framed]
    have last := recordText_not_return plainNext (record.dump ++ [b])
    rw [List.append_assoc, List.singleton_append] at last
    rw [text, lines_break fused, longer, readsFront_framed _ _ last, parse_bracketed_append (Or.inl object) plain,
      replayLines_log more fun later member => plainAfter later (List.mem_cons_of_mem _ member), FusedContained]
    simp [Except.map, readsFront_ok, prefix_repeats]

/-- One byte of a line whose record and whose followers are intact otherwise. -/
theorem damaged_line (object : record.isObject = true) (plain : doubleFree record = true)
    (plainAfter : ∀ later ∈ after, doubleFree later = true) (within : offset < (recordLine record).length) :
    ReadsFront (record :: after) (replayLines (lines ((recordLine record).set offset b ++ logOf after))) ↔
      Contained record offset b after := by
  have width := recordText_length record
  rw [recordLine_length] at within
  by_cases broken : b = byte '\n'
  · subst broken
    simp only [Contained, ↓reduceIte]
    by_cases inField : offset ≤ 8
    · rw [split_field plain plainAfter inField]
      simp [inField]
    · simp only [inField, false_imp_iff, iff_true]
      by_cases inText : offset < (recordText record).length
      · exact split_text _ object plain (by omega) inText after
      · -- The line break itself is written over itself.
        have ending : offset = (recordText record).length := by omega
        rw [ending, recordLine_eq, List.set_append_right _ _ le_rfl, Nat.sub_self, List.set_cons_zero,
          List.append_assoc]
        have read := lines_break (recordText_unbroken record plain) (logOf after)
        rw [List.singleton_append, read]
        exact readsFront_own plain plainAfter (paddedHex_length 8 _)
  · simp only [Contained, broken, ↓reduceIte]
    split
    · rename_i blank
      subst blank
      exact damaged_blank plain plainAfter broken
    rename_i blank
    split
    · rename_i ending
      subst ending
      exact damaged_break object plain plainAfter broken
    rename_i ending
    simp only [iff_true]
    by_cases inField : offset < 8
    · exact damaged_field plain plainAfter inField broken
    · exact damaged_text object plain plainAfter (by omega) (by omega) broken

/-! ## The log -/

theorem damaged_log (records : List Json)
    (plain : ∀ record ∈ records, record.isObject = true ∧ doubleFree record = true) (position : Nat) (b : UInt8) :
    ReadsFront records (replayLines (lines ((logOf records).set position b))) ↔ LogContained records position b := by
  induction records generalizing position with
  | nil => simp [lines, linesFrom, replayLines, readsFront_ok, LogContained]
  | cons record after ih =>
    obtain ⟨object, plainRecord⟩ := plain record (by simp)
    have plainAfter := fun later member => plain later (List.mem_cons_of_mem record member)
    have shape : logOf (record :: after) = recordLine record ++ logOf after := by simp [logOf]
    rw [shape, LogContained]
    by_cases within : position < (recordLine record).length
    · rw [if_pos within, List.set_append_left _ _ within]
      exact damaged_line object plainRecord (fun later member => (plainAfter later member).2) within
    · rw [if_neg within, List.set_append_right _ _ (by omega), lines_recordLine record plainRecord,
        replayLines_recordText record plainRecord, ← ih plainAfter]
      exact readsFront_cons record after _

/-- The log of a closed store is the lines of its records. -/
theorem damagedFiles_wal (records : List Json) (position : Nat) (b : UInt8) :
    (damagedFiles records position b).wal = (logOf records).set position b := by
  obtain ⟨isOpen, bytes⟩ := appendAll_bytes records (show (WalStore.open_ {}).isOpen = true from rfl)
  have closed : (records.foldl WalStore.append (.open_ {})).close.files.wal = logOf records := by
    rw [WalStore.close, if_pos isOpen, flush_eq _ isOpen]
    simpa [WalStore.open_] using bytes
  rw [damagedFiles, closed]

theorem neverSkips_iff_readsFront (records : List Json) (position : Nat) (b : UInt8) :
    NeverSkips records position b ↔ ReadsFront records (replayLines (lines ((logOf records).set position b))) := by
  rw [NeverSkips, replayCommands_open, damagedFiles_wal]
  cases replayLines (lines ((logOf records).set position b)) with
  | error fault => simp [Except.map, readsFront_error]
  | ok commands => simp [Except.map, readsFront_ok]

/-- One byte of a log is damaged: what replay returns, if it returns, is a front
of what was appended exactly when the damage is contained. -/
theorem never_skips_iff (records : List Json)
    (plain : ∀ record ∈ records, record.isObject = true ∧ doubleFree record = true) (position : Nat) (b : UInt8) :
    NeverSkips records position b ↔ LogContained records position b :=
  (neverSkips_iff_readsFront records position b).trans (damaged_log records plain position b)

theorem cancels_never_skip_iff :
    NeverSkips [cancelRecord 1, cancelRecord 2] 8 (byte '_') ↔
      LogContained [cancelRecord 1, cancelRecord 2] 8 (byte '_') :=
  never_skips_iff [cancelRecord 1, cancelRecord 2] (by decide) 8 (byte '_')

/-- The blank of the first line is damaged: only the second cancel is replayed. -/
theorem damaged_blank_hides_a_record : ¬ NeverSkips [cancelRecord 1, cancelRecord 2] 8 (byte '_') := by
  have width := recordText_length (cancelRecord 1)
  have within : 8 < (recordLine (cancelRecord 1)).length := by
    rw [recordLine_length]
    omega
  rw [neverSkips_iff_readsFront, damaged_log _ (by decide), LogContained, if_pos within, Contained,
    if_neg (by decide), if_pos rfl]
  rintro (blank | same)
  · exact absurd blank (by decide)
  · have texts := congrArg Json.dump (same (cancelRecord 2) (by simp))
    revert texts
    decide +kernel

end Exchange.WalDamage
