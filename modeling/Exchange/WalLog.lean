import Exchange.JsonRoundTrip
import Exchange.Recovery

/-! Reading a log back. A line that `append` wrote is read as its record, so a
log of whole lines is read as its records, whatever follows them. -/
namespace Exchange.WalLog
open Json JsonRoundTrip

/-! ## The checksum field -/

theorem hexDigit_read : ∀ digit : Fin 16, isHexDigit (hexDigit digit.val) = true ∧
    hexValue (hexDigit digit.val) = digit.val ∧ isSpace (hexDigit digit.val) = false ∧
    hexDigit digit.val ≠ byte '-' ∧ hexDigit digit.val ≠ byte '+' ∧ hexDigit digit.val ≠ byte 'x' ∧
    hexDigit digit.val ≠ byte 'X' ∧ hexDigit digit.val ≠ byte '\n' ∧ hexDigit digit.val ≠ byte ' ' := by
  decide

theorem paddedHex_length (width value : Nat) : (paddedHex width value).length = width := by
  simp [paddedHex]

theorem paddedHex_succ (width value : Nat) :
    paddedHex (width + 1) value = hexDigit (value / 16 ^ width % 16) :: paddedHex width value := by
  simp [paddedHex, List.range_succ]

/-- The digits of a padded number, read most significant first. -/
theorem paddedHex_value (width value start : Nat) :
    (paddedHex width value).foldl (fun value c => value * 16 + hexValue c) start =
      start * 16 ^ width + value % 16 ^ width := by
  induction width generalizing start with
  | zero => simp [paddedHex, Nat.mod_one]
  | succ width ih =>
    have digit := (hexDigit_read ⟨value / 16 ^ width % 16, Nat.mod_lt _ (by omega)⟩).2.1
    rw [paddedHex_succ, List.foldl_cons, ih, digit, Nat.pow_succ, Nat.mod_mul]
    show (start * 16 + value / 16 ^ width % 16) * 16 ^ width + value % 16 ^ width =
      start * (16 ^ width * 16) + (value % 16 ^ width + 16 ^ width * (value / 16 ^ width % 16))
    rw [Nat.add_mul, Nat.mul_assoc, Nat.mul_comm 16 (16 ^ width), Nat.mul_comm (value / 16 ^ width % 16)]
    omega

/-- Padded digits hold no blank, sign or `0x` for the scanner to pass over. -/
theorem scanHex_paddedHex (width value : Nat) :
    scanHex (paddedHex (width + 2) value) = some (false, value % 16 ^ (width + 2)) := by
  have worth := paddedHex_value (width + 2) value 0
  have digits : (paddedHex (width + 2) value).takeWhile isHexDigit = paddedHex (width + 2) value := by
    have kept : ∀ c ∈ paddedHex (width + 2) value, isHexDigit c = true := by
      intro c member
      obtain ⟨digit, rfl⟩ := mem_paddedHex member
      exact (hexDigit_read digit).1
    have grown : (paddedHex (width + 2) value ++ []).takeWhile isHexDigit =
        paddedHex (width + 2) value ++ [].takeWhile isHexDigit := List.takeWhile_append_of_pos kept
    simpa using grown
  obtain ⟨first, second, rest, shape, d₁, d₂, rfl, rfl⟩ : ∃ first second rest,
      paddedHex (width + 2) value = first :: second :: rest ∧
        ∃ d₁ d₂ : Fin 16, first = hexDigit d₁.val ∧ second = hexDigit d₂.val := by
    refine ⟨_, _, _, by rw [paddedHex_succ, paddedHex_succ], ⟨_, Nat.mod_lt _ (by omega)⟩,
      ⟨_, Nat.mod_lt _ (by omega)⟩, rfl, rfl⟩
  obtain ⟨-, -, space, minus, plus, -⟩ := hexDigit_read d₁
  obtain ⟨-, -, -, -, -, x, bigX, -⟩ := hexDigit_read d₂
  rw [shape] at digits worth ⊢
  have unprefixed : dropHexPrefix (hexDigit d₁.val :: hexDigit d₂.val :: rest) =
      hexDigit d₁.val :: hexDigit d₂.val :: rest := by
    cases rest <;> simp [dropHexPrefix, x, bigX]
  simp only [scanHex, List.dropWhile_cons, space, Bool.false_eq_true, ↓reduceIte, takeSign, minus, plus,
    unprefixed, digits, reduceCtorEq, worth]
  simp

/-- Eight padded digits are read back as the word they show. -/
theorem strtoul16_paddedHex (word : UInt32) : strtoul16 (paddedHex 8 word.toNat) = word := by
  have small : word.toNat % 16 ^ (6 + 2) = word.toNat := Nat.mod_eq_of_lt word.toNat_lt
  rw [strtoul16, scanHex_paddedHex 6, small]
  have whole : ((word.toNat : Int) % 2 ^ 32).toNat = word.toNat := by
    have bound := word.toNat_lt
    omega
  simp only [Bool.false_eq_true, ↓reduceIte, UInt32.ofInt, whole, UInt32.ofNat_toNat]

/-! ## Lines -/

/-- A line with this checksum field and this text after it. -/
def framed (word : UInt32) (body : Bytes) : Bytes := paddedHex 8 word.toNat ++ byte ' ' :: body

/-- A record line without its line break. -/
def recordText (command : Json) : Bytes := framed (crc32 command.dump) command.dump

theorem recordLine_eq (command : Json) : recordLine command = recordText command ++ [byte '\n'] := by
  simp [recordLine, recordText, framed]

theorem recordText_length (command : Json) : (recordText command).length = command.dump.length + 9 := by
  simp only [recordText, framed, List.length_append, paddedHex_length, List.length_cons]
  omega

theorem recordLine_length (command : Json) : (recordLine command).length = (recordText command).length + 1 := by
  rw [recordLine_eq, List.length_append, List.length_singleton]

theorem recordText_unbroken (command : Json) (plain : doubleFree command = true) :
    ∀ c ∈ recordText command, c ≠ byte '\n' := by
  intro c member
  rw [recordText, framed, List.mem_append, List.mem_cons] at member
  rcases member with field | rfl | inside
  · obtain ⟨digit, rfl⟩ := mem_paddedHex field
    exact (hexDigit_read digit).2.2.2.2.2.2.2.1
  · decide
  · rintro rfl
    exact absurd (dump_printable command plain _ inside) (by decide)

theorem linesFrom_append (line front rest : Bytes) (unbroken : ∀ c ∈ front, c ≠ byte '\n') :
    linesFrom line (front ++ rest) = linesFrom (line ++ front) rest := by
  induction front generalizing line with
  | nil => simp
  | cons c front ih =>
    rw [List.cons_append, linesFrom, if_neg (unbroken c (by simp)),
      ih _ fun d member => unbroken d (List.mem_cons_of_mem _ member)]
    simp

theorem linesFrom_break (line rest : Bytes) : linesFrom line (byte '\n' :: rest) = line :: lines rest := by
  rw [linesFrom, if_pos rfl, lines]

theorem lines_break {line : Bytes} (unbroken : ∀ c ∈ line, c ≠ byte '\n') (rest : Bytes) :
    lines (line ++ byte '\n' :: rest) = line :: lines rest := by
  rw [lines, linesFrom_append _ _ _ unbroken]
  exact linesFrom_break _ rest

/-- The last line needs no break. -/
theorem lines_unended {line : Bytes} (unbroken : ∀ c ∈ line, c ≠ byte '\n') (filled : line ≠ []) :
    lines line = [line] := by
  have shape := linesFrom_append [] line [] unbroken
  rw [List.append_nil, List.nil_append] at shape
  rw [lines, shape, linesFrom, if_neg filled]

theorem lines_recordLine (command : Json) (plain : doubleFree command = true) (rest : Bytes) :
    lines (recordLine command ++ rest) = recordText command :: lines rest := by
  rw [recordLine_eq, List.append_assoc]
  exact lines_break (recordText_unbroken command plain) rest

/-- The fields of a line with a blank in the ninth place. -/
theorem line_fields {field : Bytes} (size : field.length = 8) (body : Bytes) :
    (field ++ byte ' ' :: body).take 8 = field ∧ (field ++ byte ' ' :: body)[8]? = some (byte ' ') ∧
      (field ++ byte ' ' :: body).drop 9 = body ∧ 9 ≤ (field ++ byte ' ' :: body).length := by
  refine ⟨?_, ?_, ?_, ?_⟩
  · rw [List.take_left' size]
  · rw [List.getElem?_append_right (by omega), size]
    rfl
  · have shape : field ++ byte ' ' :: body = (field ++ [byte ' ']) ++ body := by simp
    rw [shape, List.drop_left' (by simp [size])]
  · simp [size]
    omega

/-- No carriage return ends such a line if none ends its text, so the reader strips none. -/
theorem line_not_return (field : Bytes) {body : Bytes} (last : body.getLast? ≠ some (byte '\r')) :
    (field ++ byte ' ' :: body).getLast? ≠ some (byte '\r') := by
  rw [List.getLast?_append_cons, List.getLast?_cons]
  cases shape : body.getLast? with
  | none => decide
  | some c =>
    rw [shape] at last
    simpa using last

/-- What the reader does with a line that ends in no carriage return. -/
theorem replayLines_line {text : Bytes} (last : text.getLast? ≠ some (byte '\r')) (rest : List Bytes) :
    replayLines (text :: rest) =
      if text.length < 9 ∨ text[8]? ≠ some (byte ' ') then replayLines rest
      else if crc32 (text.drop 9) ≠ strtoul16 (text.take 8) then .ok []
      else (Json.parse (text.drop 9)).bind fun command => (replayLines rest).map (command :: ·) := by
  rw [replayLines]
  simp only [last, ↓reduceIte, bind]
  rfl

/-- One carriage return at the end of a line makes no difference. -/
theorem replayLines_return {line : Bytes} (last : line.getLast? ≠ some (byte '\r')) (rest : List Bytes) :
    replayLines ((line ++ [byte '\r']) :: rest) = replayLines (line :: rest) := by
  rw [replayLines, replayLines]
  simp only [List.getLast?_concat, List.dropLast_concat, last, ↓reduceIte]

/-- What the reader does with a line that has a blank in the ninth place. -/
theorem replayLines_fields {field : Bytes} (size : field.length = 8) {body : Bytes}
    (last : body.getLast? ≠ some (byte '\r')) (rest : List Bytes) :
    replayLines ((field ++ byte ' ' :: body) :: rest) = if crc32 body ≠ strtoul16 field then .ok []
      else (Json.parse body).bind fun command => (replayLines rest).map (command :: ·) := by
  obtain ⟨digits, blank, text, long⟩ := line_fields size body
  rw [replayLines_line (line_not_return field last), digits, text]
  exact if_neg (not_or.mpr ⟨Nat.not_lt.mpr long, fun other => other blank⟩)

theorem replayLines_framed (word : UInt32) {body : Bytes} (last : body.getLast? ≠ some (byte '\r'))
    (rest : List Bytes) :
    replayLines (framed word body :: rest) = if crc32 body ≠ word then .ok []
      else (Json.parse body).bind fun command => (replayLines rest).map (command :: ·) := by
  have read := replayLines_fields (paddedHex_length 8 word.toNat) last rest
  rwa [strtoul16_paddedHex] at read

theorem dump_ne_nil (command : Json) (plain : doubleFree command = true) : command.dump ≠ [] := by
  obtain ⟨c, tail, shape, -⟩ := dump_head command plain
  simp [shape]

/-- Text that ends like a record does not end in a carriage return. -/
theorem dump_not_return (command : Json) (plain : doubleFree command = true) (front : Bytes) :
    (front ++ command.dump).getLast? ≠ some (byte '\r') := by
  intro last
  rw [List.getLast?_append_of_ne_nil _ (dump_ne_nil command plain)] at last
  exact absurd (dump_printable command plain _ (List.mem_of_getLast? last)) (by decide)

/-- A written line is read as its record. -/
theorem replayLines_recordText (command : Json) (plain : doubleFree command = true) (rest : List Bytes) :
    replayLines (recordText command :: rest) = (replayLines rest).map (command :: ·) := by
  have last : command.dump.getLast? ≠ some (byte '\r') := dump_not_return command plain []
  rw [recordText, replayLines_framed _ last, if_neg (by simp), parse_dump command plain]
  rfl

/-- The lines of a log, one per record. -/
def logOf (records : List Json) : Bytes := records.flatMap recordLine

@[simp] theorem logOf_nil : logOf [] = [] := rfl

@[simp] theorem logOf_append (first second : List Json) :
    logOf (first ++ second) = logOf first ++ logOf second := by
  simp [logOf]

/-- A log of whole lines is read as its records, then whatever follows. -/
theorem replayLines_logOf (records : List Json) (plain : ∀ record ∈ records, doubleFree record = true)
    (rest : Bytes) :
    replayLines (lines (logOf records ++ rest)) = (replayLines (lines rest)).map (records ++ ·) := by
  induction records with
  | nil =>
    simp only [logOf_nil, List.nil_append]
    cases replayLines (lines rest) <;> rfl
  | cons record records ih =>
    have shape : logOf (record :: records) ++ rest = recordLine record ++ (logOf records ++ rest) := by
      simp [logOf]
    rw [shape, lines_recordLine record (plain record (by simp)),
      replayLines_recordText record (plain record (by simp)),
      ih fun other member => plain other (List.mem_cons_of_mem _ member)]
    cases replayLines (lines rest) <;> rfl

theorem replayLines_log (records : List Json) (plain : ∀ record ∈ records, doubleFree record = true) :
    replayLines (lines (logOf records)) = .ok records := by
  have whole := replayLines_logOf records plain []
  rw [List.append_nil] at whole
  rw [whole]
  simp [lines, linesFrom, replayLines, Except.map]

/-! ## Writing -/

/-- A flush moves the staged lines to the end of the file. -/
theorem flush_eq (store : WalStore) (isOpen : store.isOpen = true) :
    store.flush = { store with
      files := { store.files with wal := store.files.wal ++ store.pending }
      pending := []
      batchCount := 0 } :=
  if_pos isOpen

/-- A new store replays what the file holds. -/
theorem replayCommands_open (files : Files) :
    (WalStore.open_ files).replayCommands =
      (replayLines (lines files.wal)).map fun commands => ((WalStore.open_ files).flush, commands) := by
  have file : (WalStore.open_ files).flush.files.wal = files.wal := by
    rw [flush_eq _ rfl]
    exact List.append_nil files.wal
  rw [WalStore.replayCommands, file]
  cases replayLines (lines files.wal) <;> rfl

/-- Staged or flushed, an appended record is the next line; nothing else changes. -/
theorem append_bytes {store : WalStore} (isOpen : store.isOpen = true) (command : Json) :
    (store.append command).isOpen = true ∧
      (store.append command).files.snapshot = store.files.snapshot ∧
      (store.append command).files.wal ++ (store.append command).pending =
        store.files.wal ++ store.pending ++ recordLine command := by
  rw [WalStore.append]
  split
  · simp [WalStore.flush, isOpen]
  · simp [isOpen]

end Exchange.WalLog
