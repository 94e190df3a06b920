import Exchange.Sharded
import Exchange.WalLog

/-! Appending after a torn tail. A crash can leave the front of a line at the
end of the log. The store opens the file for appending as it is, so the first
new line continues the torn one: read as one line it is passed over when the
cut fell into the checksum field, and otherwise its checksum ends the log. -/
namespace Exchange.TornTail
open JsonRoundTrip WalLog

/-- The log of the records, followed by the first bytes of one more line. -/
def tornLog (records : List Json) (torn : Json) (cut : Nat) : Bytes :=
  logOf records ++ (recordLine torn).take cut

/-- What is read after new records were appended to a log and flushed. -/
def reread (files : Files) (news : List Json) : Except JsonError (WalStore × List Json) :=
  (news.foldl WalStore.append (.open_ files)).flush.replayCommands

/-- The old records are read, then perhaps the torn one if only its line break
was missing, then all new ones. -/
def Survives (files : Files) (records : List Json) (torn : Json) (cut : Nat) (news : List Json) : Prop :=
  ∃ store commands, reread { files with wal := tornLog records torn cut } news = .ok (store, commands) ∧
    (commands = records ++ news ∨
      cut = (recordText torn).length ∧ commands = records ++ torn :: news)

/-- The text of the torn line after the checksum field. -/
def tornBody (torn : Json) (cut : Nat) : Bytes := torn.dump.take (cut - 9)

/-- When the tail does no harm: it is empty; or nothing follows it and it is not
taken for a record; or, by a coincidence of checksums, the line it makes with
the first new record passes for that record. -/
def Harmless (torn : Json) (cut : Nat) : List Json → Prop
  | [] => cut < 9 ∨ cut = (recordText torn).length ∨ crc32 (tornBody torn cut) ≠ crc32 torn.dump
  | next :: _ => cut = 0 ∨ 9 ≤ cut ∧ crc32 (tornBody torn cut ++ recordText next) = crc32 torn.dump ∧
      Json.parse (tornBody torn cut ++ recordText next) = .ok next

variable {records news : List Json} {torn next : Json} {cut : Nat}

/-! ## Bytes -/

theorem appendAll_bytes (news : List Json) {store : WalStore} (isOpen : store.isOpen = true) :
    (news.foldl WalStore.append store).isOpen = true ∧
      (news.foldl WalStore.append store).files.wal ++ (news.foldl WalStore.append store).pending =
        store.files.wal ++ store.pending ++ logOf news := by
  induction news generalizing store with
  | nil => exact ⟨isOpen, by simp⟩
  | cons record news ih =>
    obtain ⟨stillOpen, -, bytes⟩ := append_bytes isOpen record
    obtain ⟨lastOpen, all⟩ := ih stillOpen
    refine ⟨lastOpen, ?_⟩
    rw [List.foldl_cons, all, bytes]
    simp [logOf]

theorem flush_flush (store : WalStore) : store.flush.flush = store.flush := by
  cases isOpen : store.isOpen with
  | false => simp [WalStore.flush, isOpen]
  | true => simp [WalStore.flush, isOpen]

/-- All that matters of a reread is the text of the file. -/
theorem reread_eq (files : Files) (news : List Json) :
    ∃ store, reread files news =
      (replayLines (lines (files.wal ++ logOf news))).map fun commands => (store, commands) := by
  obtain ⟨isOpen, bytes⟩ := appendAll_bytes news (show (WalStore.open_ files).isOpen = true from rfl)
  have file : (news.foldl WalStore.append (.open_ files)).flush.files.wal = files.wal ++ logOf news := by
    rw [flush_eq _ isOpen]
    simpa [WalStore.open_] using bytes
  refine ⟨(news.foldl WalStore.append (.open_ files)).flush, ?_⟩
  rw [reread, WalStore.replayCommands, flush_flush, file]
  cases replayLines (lines (files.wal ++ logOf news)) <;> rfl

/-- The torn line is short of its blank, or whole up to somewhere in its text. -/
theorem torn_shape (torn : Json) (within : cut ≤ (recordText torn).length) :
    (recordLine torn).take cut = (recordText torn).take cut ∧
      (9 ≤ cut → (recordText torn).take cut = framed (crc32 torn.dump) (tornBody torn cut)) := by
  refine ⟨?_, fun long => ?_⟩
  · rw [recordLine_eq, List.take_append_of_le_length within]
  · have size := paddedHex_length 8 (crc32 torn.dump).toNat
    rw [recordText, framed, List.take_append, List.take_of_length_le (by omega), size]
    obtain ⟨more, rfl⟩ : ∃ more, cut = more + 9 := ⟨cut - 9, by omega⟩
    rw [show more + 9 - 8 = more + 1 by omega, List.take_succ_cons]
    rfl

/-- Cut at its break, a line has all its text. -/
theorem tornBody_whole (whole : cut = (recordText torn).length) : tornBody torn cut = torn.dump := by
  have width := recordText_length torn
  exact List.take_of_length_le (by omega)

theorem torn_unbroken (plain : doubleFree torn = true) (cut : Nat) :
    ∀ c ∈ (recordText torn).take cut, c ≠ byte '\n' :=
  fun c member => recordText_unbroken torn plain c (List.mem_of_mem_take member)

/-! ## Lines -/

theorem replayLines_short {text : Bytes} (short : text.length < 9) (rest : List Bytes) :
    replayLines (text :: rest) = replayLines rest := by
  rw [replayLines]
  split
  · rw [if_pos (Or.inl (by rw [List.length_dropLast]; omega))]
  · rw [if_pos (Or.inl short)]

theorem replayLines_unblank {text : Bytes} (last : text.getLast? ≠ some (byte '\r'))
    (unblank : text[8]? ≠ some (byte ' ')) (rest : List Bytes) :
    replayLines (text :: rest) = replayLines rest := by
  rw [replayLines_line last, if_pos (Or.inr unblank)]

/-- Nothing appended: the tail is the last line. -/
theorem lines_tail (plain : doubleFree torn = true) (positive : 0 < cut) :
    lines ((recordText torn).take cut) = [(recordText torn).take cut] := by
  have filled : (recordText torn).take cut ≠ [] := by
    have width := recordText_length torn
    intro empty
    have none := congrArg List.length empty
    rw [List.length_take, List.length_nil] at none
    omega
  exact lines_unended (torn_unbroken plain cut) filled

/-- The first new line continues the torn one. -/
theorem lines_fused (plain : doubleFree torn = true) (plainNext : doubleFree next = true) (cut : Nat)
    (news : List Json) :
    lines ((recordText torn).take cut ++ logOf (next :: news)) =
      ((recordText torn).take cut ++ recordText next) :: lines (logOf news) := by
  have text : (recordText torn).take cut ++ logOf (next :: news) =
      ((recordText torn).take cut ++ recordText next) ++ byte '\n' :: logOf news := by
    simp [logOf, recordLine_eq]
  have unbroken : ∀ c ∈ (recordText torn).take cut ++ recordText next, c ≠ byte '\n' := by
    intro c member
    rcases List.mem_append.mp member with inTail | inNext
    · exact torn_unbroken plain cut c inTail
    · exact recordText_unbroken next plainNext c inNext
  rw [text]
  exact lines_break unbroken (logOf news)

/-- A cut in the checksum field leaves a digit of the new field where the blank should be. -/
theorem fused_unblank (torn next : Json) (positive : 0 < cut) (short : cut < 9) :
    ((recordText torn).take cut ++ recordText next)[8]? ≠ some (byte ' ') := by
  have size := recordText_length torn
  have width : ((recordText torn).take cut).length = cut := by
    rw [List.length_take]
    omega
  have field := paddedHex_length 8 (crc32 next.dump).toNat
  rw [List.getElem?_append_right (by omega), width, recordText, framed,
    List.getElem?_append_left (by omega)]
  intro blank
  obtain ⟨digit, isDigit⟩ := mem_paddedHex (List.mem_of_getElem? blank)
  exact (hexDigit_read digit).2.2.2.2.2.2.2.2 isDigit.symm

theorem fused_framed (long : 9 ≤ cut) (within : cut ≤ (recordText torn).length) :
    (recordText torn).take cut ++ recordText next =
      framed (crc32 torn.dump) (tornBody torn cut ++ recordText next) := by
  rw [(torn_shape torn within).2 long]
  simp [framed]

theorem recordText_not_return (plain : doubleFree next = true) (front : Bytes) :
    (front ++ recordText next).getLast? ≠ some (byte '\r') := by
  have shape : front ++ recordText next =
      (front ++ (paddedHex 8 (crc32 next.dump).toNat ++ [byte ' '])) ++ next.dump := by
    simp [recordText, framed]
  rw [shape]
  exact dump_not_return next plain _

theorem tornBody_not_return (plain : doubleFree torn = true) (cut : Nat) :
    (tornBody torn cut).getLast? ≠ some (byte '\r') := by
  intro last
  have inside := List.mem_of_mem_take (List.mem_of_getLast? last)
  exact absurd (dump_printable torn plain _ inside) (by decide)

/-! ## Rereading -/

/-- The old records are always read; the rest is what the tail and the new lines give. -/
theorem survives_iff_tail (files : Files) (plain : ∀ record ∈ records, doubleFree record = true)
    (within : cut ≤ (recordText torn).length) (news : List Json) :
    Survives files records torn cut news ↔
      ∃ commands, replayLines (lines ((recordText torn).take cut ++ logOf news)) = .ok commands ∧
        (commands = news ∨ cut = (recordText torn).length ∧ commands = torn :: news) := by
  obtain ⟨store, same⟩ := reread_eq { files with wal := tornLog records torn cut } news
  rw [Survives, same, tornLog, List.append_assoc, (torn_shape torn within).1, replayLines_logOf records plain]
  cases replayLines (lines ((recordText torn).take cut ++ logOf news)) with
  | error fault => simp [Except.map]
  | ok commands =>
    simp only [Except.map, Except.ok.injEq, Prod.mk.injEq, exists_eq_left']
    constructor
    · rintro ⟨_, read, ⟨-, rfl⟩, outcome⟩
      simpa using outcome
    · intro outcome
      exact ⟨store, _, ⟨rfl, rfl⟩, by simpa using outcome⟩

/-- A torn line that nothing follows: too short for a record, ended by its
checksum, or read. -/
theorem replayLines_tail (plain : doubleFree torn = true) (within : cut ≤ (recordText torn).length) :
    replayLines (lines ((recordText torn).take cut)) =
      if cut < 9 then .ok []
      else if crc32 (tornBody torn cut) ≠ crc32 torn.dump then .ok []
      else (Json.parse (tornBody torn cut)).map fun command => [command] := by
  rcases Nat.eq_zero_or_pos cut with rfl | positive
  · simp [lines, linesFrom, replayLines]
  rw [lines_tail plain positive]
  by_cases short : cut < 9
  · rw [replayLines_short (by rw [List.length_take]; omega), if_pos short]
    rfl
  · rw [(torn_shape torn within).2 (by omega), replayLines_framed _ (tornBody_not_return plain cut),
      if_neg short]
    rfl

/-- Nothing is appended. -/
theorem survives_alone (plain : doubleFree torn = true) (within : cut ≤ (recordText torn).length) :
    (∃ commands, replayLines (lines ((recordText torn).take cut ++ logOf [])) = .ok commands ∧
      (commands = [] ∨ cut = (recordText torn).length ∧ commands = [torn])) ↔ Harmless torn cut [] := by
  rw [logOf_nil, List.append_nil, replayLines_tail plain within]
  by_cases short : cut < 9
  · simp [Harmless, short]
  rw [if_neg short]
  by_cases matched : crc32 (tornBody torn cut) = crc32 torn.dump
  · by_cases whole : cut = (recordText torn).length
    · rw [tornBody_whole whole, if_neg (by simp), parse_dump torn plain]
      exact ⟨fun _ => Or.inr (Or.inl whole), fun _ => ⟨[torn], rfl, Or.inr ⟨whole, rfl⟩⟩⟩
    · simp only [matched, ne_eq, not_true_eq_false, ↓reduceIte, Harmless, whole, short,
        false_and, or_false, or_self]
      cases Json.parse (tornBody torn cut) <;> simp [Except.map]
  · simp [matched, Harmless]

/-- Something is appended. -/
theorem survives_followed (plain : doubleFree torn = true) (within : cut ≤ (recordText torn).length)
    (plainNext : doubleFree next = true) (plainNews : ∀ record ∈ news, doubleFree record = true) :
    (∃ commands, replayLines (lines ((recordText torn).take cut ++ logOf (next :: news))) = .ok commands ∧
      (commands = next :: news ∨ cut = (recordText torn).length ∧ commands = torn :: next :: news)) ↔
      Harmless torn cut (next :: news) := by
  have longer : ∀ first, first :: news ≠ torn :: next :: news := by
    intro first same
    simpa using congrArg List.length same
  rw [lines_fused plain plainNext]
  rcases Nat.eq_zero_or_pos cut with rfl | positive
  · rw [List.take_zero, List.nil_append, replayLines_recordText next plainNext, replayLines_log news plainNews]
    exact ⟨fun _ => Or.inl rfl, fun _ => ⟨next :: news, rfl, Or.inl rfl⟩⟩
  by_cases short : cut < 9
  · -- The fused line is passed over and the first new record with it.
    rw [replayLines_unblank (recordText_not_return plainNext _) (fused_unblank torn next positive short),
      replayLines_log news plainNews]
    constructor
    · rintro ⟨commands, read, outcome⟩
      cases read
      rcases outcome with same | ⟨-, same⟩
      · exact absurd (congrArg List.length same) (by simp)
      · exact absurd (congrArg List.length same) (by simp; omega)
    · rintro (none | ⟨long, -⟩) <;> omega
  rw [fused_framed (by omega) within, replayLines_framed _ (recordText_not_return plainNext _),
    replayLines_log news plainNews]
  have long : 9 ≤ cut := by omega
  have some_ : cut ≠ 0 := by omega
  by_cases matched : crc32 (tornBody torn cut ++ recordText next) = crc32 torn.dump
  · simp only [matched, ne_eq, not_true_eq_false, ↓reduceIte, Harmless, some_, long, true_and, false_or]
    cases Json.parse (tornBody torn cut ++ recordText next) with
    | error fault => simp [Except.bind]
    | ok command => simp [Except.bind, Except.map, longer]
  · -- The checksum ends the log before the new records.
    simp [matched, Harmless, some_]

/-- Records appended after a torn tail are read back exactly when the tail does
no harm. -/
theorem appended_survive_iff (files : Files) (records : List Json) (torn : Json) (cut : Nat)
    (news : List Json) (plain : ∀ record ∈ torn :: (records ++ news), doubleFree record = true)
    (proper : cut < (recordLine torn).length) :
    Survives files records torn cut news ↔ Harmless torn cut news := by
  have within : cut ≤ (recordText torn).length := by
    rw [recordLine_eq, List.length_append, List.length_singleton] at proper
    omega
  have plainTorn := plain torn (by simp)
  rw [survives_iff_tail files (fun record member => plain record (by simp [member])) within]
  cases news with
  | nil => exact survives_alone plainTorn within
  | cons next news =>
    exact survives_followed plainTorn within (plain next (by simp))
      fun record member => plain record (by simp [member])

/-- The log record of a cancel. -/
def cancelRecord (orderId : Int64) : Json := record "cancel" (serializeCancel ⟨ascii "S", orderId⟩)

theorem cancels_survive_iff :
    Survives {} [cancelRecord 1] (cancelRecord 2) 12 [cancelRecord 3] ↔
      Harmless (cancelRecord 2) 12 [cancelRecord 3] :=
  appended_survive_iff {} [cancelRecord 1] (cancelRecord 2) 12 [cancelRecord 3]
    (by decide) (by decide +kernel)

/-- A crash after the first byte of a line, then one more record: it is lost. -/
theorem record_after_torn_byte_is_lost :
    ¬ Survives {} [cancelRecord 1] (cancelRecord 2) 1 [cancelRecord 3] := by
  have within : 1 ≤ (recordText (cancelRecord 2)).length := by
    have width := recordText_length (cancelRecord 2)
    omega
  rw [survives_iff_tail {} (by decide) within, survives_followed (by decide) within (by decide) (by decide)]
  rintro (none | ⟨long, -⟩) <;> omega

end Exchange.TornTail
