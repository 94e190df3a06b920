import Exchange.TornTail

/-! Group commit and crashes. Appended lines are staged and written in batches;
a crash loses the staged bytes except for a front of them that reached the
file. The log that is left is a run of whole lines and perhaps the front of one
more, and reading it gives the records whose text is all there. -/
namespace Exchange.GroupCommit
open JsonRoundTrip WalLog TornTail

/-- A call that writes to the log. -/
inductive WalCall where
  | append (command : Json)
  | flush

def call (store : WalStore) : WalCall → WalStore
  | .append command => store.append command
  | .flush => store.flush

/-- The records of the calls, in order. -/
def appended (calls : List WalCall) : List Json :=
  calls.filterMap fun
    | .append command => some command
    | .flush => none

/-- `append` before it looks at the batch count. -/
def stage (store : WalStore) (command : Json) : WalStore :=
  { store with pending := store.pending ++ recordLine command, batchCount := store.batchCount + 1 }

/-- The store when the crash comes: between two calls, or in an append that has
staged its line and has not finished its flush. -/
def atCrash (store : WalStore) : Option Json → WalStore
  | none => store
  | some command => stage store command

/-- What a crash leaves in the directory: the file and a front of the staged bytes. -/
def crashed (store : WalStore) (reached : Nat) : Files :=
  { store.files with wal := store.files.wal ++ store.pending.take reached }

/-- The file holds the first of the records and the staging buffer the others,
which the batch counter counts. -/
structure Staged (store : WalStore) (records : List Json) (window : Nat) : Prop where
  isOpen : store.isOpen = true
  split : ∃ written staged, records = written ++ staged ∧ store.files.wal = logOf written ∧
    store.pending = logOf staged ∧ store.batchCount = staged.length ∧ staged.length < window

/-- No front of a record's text has the checksum of the whole. -/
def NoFrontCollides (record : Json) : Prop :=
  ∀ front, front <+: record.dump → front ≠ record.dump → crc32 front ≠ crc32 record.dump

theorem noFrontCollides_of_sizes {record : Json}
    (apart : ∀ size < record.dump.length, crc32 (record.dump.take size) ≠ crc32 record.dump) :
    NoFrontCollides record := by
  intro front isFront shorter
  have fits := isFront.length_le
  rw [List.prefix_iff_eq_take.mp isFront]
  refine apart _ (lt_of_le_of_ne fits fun same => ?_)
  exact shorter (isFront.eq_of_length same)

/-! ## The batch counter -/

variable {store : WalStore} {records : List Json}

theorem append_eq (store : WalStore) (command : Json) : store.append command =
    if kCommitBatch ≤ (stage store command).batchCount then (stage store command).flush
    else stage store command := rfl

theorem staged_bytes {window : Nat} (staged : Staged store records window) :
    store.files.wal ++ store.pending = logOf records := by
  obtain ⟨written, rest, rfl, file, buffer, -⟩ := staged.split
  rw [file, buffer, logOf_append]

theorem staged_stage (staged : Staged store records kCommitBatch) (command : Json) :
    Staged (stage store command) (records ++ [command]) (kCommitBatch + 1) := by
  obtain ⟨written, rest, rfl, file, buffer, count, few⟩ := staged.split
  refine ⟨staged.isOpen, written, rest ++ [command], by simp, file, ?_, ?_, ?_⟩
  · simp [stage, buffer, logOf]
  · simp [stage, count]
  · simpa using few

theorem staged_flush {window : Nat} (staged : Staged store records window) :
    Staged store.flush records kCommitBatch := by
  have bytes := staged_bytes staged
  rw [flush_eq store staged.isOpen]
  exact ⟨staged.isOpen, records, [], by simp, bytes, rfl, rfl, by decide⟩

/-- Every call keeps the batch below the window. -/
theorem staged_call (staged : Staged store records kCommitBatch) (made : WalCall) :
    Staged (call store made) (records ++ appended [made]) kCommitBatch := by
  cases made with
  | flush => simpa [call, appended] using staged_flush staged
  | append command =>
    have grown := staged_stage staged command
    rw [call, append_eq]
    split
    · exact staged_flush grown
    · rename_i room
      obtain ⟨written, rest, shape, file, buffer, count, -⟩ := grown.split
      exact ⟨grown.isOpen, written, rest, shape, file, buffer, count, by omega⟩

theorem staged_calls (staged : Staged store records kCommitBatch) (calls : List WalCall) :
    Staged (calls.foldl call store) (records ++ appended calls) kCommitBatch := by
  induction calls generalizing store records with
  | nil => simpa [appended] using staged
  | cons made calls ih =>
    have later := ih (staged_call staged made)
    have shape : appended (made :: calls) = appended [made] ++ appended calls := by
      rw [appended, appended, appended, ← List.filterMap_append]
      rfl
    rw [shape, ← List.append_assoc]
    exact later

/-! ## A log cut anywhere -/

/-- The records whose text fits into so many bytes of their log. -/
def survivors : List Json → Nat → List Json
  | [], _ => []
  | record :: rest, size =>
    if (recordText record).length ≤ size then record :: survivors rest (size - (recordLine record).length)
    else []

theorem survivors_zero (records : List Json) : survivors records 0 = [] := by
  cases records with
  | nil => rfl
  | cons record rest =>
    have width := recordText_length record
    rw [survivors, if_neg (by omega)]

theorem survivors_front (records : List Json) (size : Nat) : survivors records size <+: records := by
  induction records generalizing size with
  | nil => exact List.nil_prefix
  | cons record rest ih =>
    rw [survivors]
    split
    · exact List.cons_prefix_cons.mpr ⟨rfl, ih _⟩
    · exact List.nil_prefix

/-- A record survives exactly when its text, after the lines before it, fits. -/
theorem survives_iff {before after : List Json} {record : Json} (size : Nat) :
    before.length < (survivors (before ++ record :: after) size).length ↔
      (logOf before ++ recordText record).length ≤ size := by
  induction before generalizing size with
  | nil =>
    rw [List.nil_append, survivors]
    split
    · rename_i fits
      simpa using fits
    · rename_i short
      simpa using short
  | cons first before ih =>
    have width := recordLine_length first
    rw [List.cons_append, survivors]
    split
    · rename_i fits
      have rest := ih (size - (recordLine first).length)
      simp only [List.length_cons, Nat.add_lt_add_iff_right, rest]
      simp only [logOf, List.flatMap_cons, List.length_append]
      have filled := recordText_length record
      omega
    · simp only [List.length_nil, Nat.not_lt_zero, logOf, List.flatMap_cons, List.length_append, false_iff]
      omega

/-- The front of one line is read as its record if the text is all there, and
as nothing otherwise. -/
theorem replayLines_front {record : Json} (plain : doubleFree record = true)
    (distinct : NoFrontCollides record) {size : Nat} (within : size ≤ (recordText record).length) :
    replayLines (lines ((recordText record).take size)) =
      .ok (if size = (recordText record).length then [record] else []) := by
  rw [replayLines_tail plain within]
  have width := recordText_length record
  by_cases whole : size = (recordText record).length
  · rw [tornBody_whole whole, if_neg (by omega), if_neg (by simp), if_pos whole, parse_dump record plain]
    rfl
  · rw [if_neg whole]
    split
    · rfl
    · have shorter : tornBody record size ≠ record.dump := by
        intro same
        have lengths := congrArg List.length same
        rw [tornBody, List.length_take] at lengths
        omega
      have apart : crc32 (tornBody record size) ≠ crc32 record.dump :=
        distinct _ (List.take_prefix _ _) shorter
      rw [if_pos apart]

theorem replayLines_cut (records : List Json) (plain : ∀ record ∈ records, doubleFree record = true)
    (distinct : ∀ record ∈ records, NoFrontCollides record) (size : Nat) :
    replayLines (lines ((logOf records).take size)) = .ok (survivors records size) := by
  induction records generalizing size with
  | nil => simp [lines, linesFrom, replayLines, survivors]
  | cons record rest ih =>
    have width := recordLine_length record
    have shape : logOf (record :: rest) = recordLine record ++ logOf rest := by simp [logOf]
    rw [shape, survivors, List.take_append]
    by_cases inside : size ≤ (recordText record).length
    · rw [(torn_shape record inside).1, show size - (recordLine record).length = 0 by omega, List.take_zero,
        List.append_nil, replayLines_front (plain record (by simp)) (distinct record (by simp)) inside,
        survivors_zero]
      congr 1
      split <;> split <;> first | rfl | omega
    · rw [List.take_of_length_le (by omega), if_pos (by omega), lines_recordLine record (plain record (by simp)),
        replayLines_recordText record (plain record (by simp)),
        ih (fun other member => plain other (List.mem_cons_of_mem _ member))
          (fun other member => distinct other (List.mem_cons_of_mem _ member))]
      rfl

/-! ## Crashes -/

/-- The store of a crash has at most a full window of records staged. -/
theorem staged_atCrash (staged : Staged store records kCommitBatch) (next : Option Json) :
    Staged (atCrash store next) (records ++ next.toList) (kCommitBatch + 1) := by
  cases next with
  | some command => exact staged_stage staged command
  | none =>
    obtain ⟨written, rest, shape, file, buffer, count, few⟩ := staged.split
    exact ⟨staged.isOpen, written, rest, by simpa using shape, file, buffer, count, by omega⟩

/-- The surviving bytes are a front of the log that holds everything written before. -/
theorem crashed_log {window : Nat} (staged : Staged store records window) (reached : Nat) :
    ∃ size written lost, (crashed store reached).wal = (logOf records).take size ∧
      records = written ++ lost ∧ lost.length < window ∧ (logOf written).length ≤ size := by
  obtain ⟨written, rest, rfl, file, buffer, -, few⟩ := staged.split
  refine ⟨(logOf written).length + reached, written, rest, ?_, rfl, few, by omega⟩
  simp only [crashed, file, buffer, logOf_append]
  rw [List.take_length_add_append]

/-- Whatever was written is read back. -/
theorem written_survives (written lost : List Json) {size : Nat} (enough : (logOf written).length ≤ size) :
    written.length ≤ (survivors (written ++ lost) size).length := by
  rcases List.eq_nil_or_concat written with rfl | ⟨before, record, rfl⟩
  · simp
  · have held : before.length < (survivors (before ++ record :: lost) size).length := by
      rw [survives_iff]
      simp only [List.concat_eq_append, logOf_append, List.length_append] at enough ⊢
      simp only [logOf, List.flatMap_cons, List.flatMap_nil, List.append_nil, recordLine_length] at enough ⊢
      omega
    simpa using held

/-- A new store reads the records whose text lies within the surviving bytes,
and fewer than a window of the last ones are missing. -/
theorem crash_recovers {window : Nat} (staged : Staged store records window)
    (plain : ∀ record ∈ records, doubleFree record = true)
    (distinct : ∀ record ∈ records, NoFrontCollides record) (reached : Nat) :
    ∃ reread kept lost, records = kept ++ lost ∧ lost.length < window ∧
      (WalStore.open_ (crashed store reached)).replayCommands = .ok (reread, kept) ∧
      ∀ before record after, records = before ++ record :: after →
        (before.length < kept.length ↔ logOf before ++ recordText record <+: (crashed store reached).wal) := by
  obtain ⟨size, written, missing, file, split, few, enough⟩ := crashed_log staged reached
  have read := replayLines_cut records plain distinct size
  have most := written_survives written missing enough
  rw [← split] at most
  obtain ⟨lost, parts⟩ := survivors_front records size
  refine ⟨(WalStore.open_ (crashed store reached)).flush, survivors records size, lost, parts.symm, ?_, ?_,
    fun before record after shape => ?_⟩
  · have lengths := congrArg List.length parts
    have lengths' := congrArg List.length split
    rw [List.length_append] at lengths lengths'
    omega
  · rw [replayCommands_open, file, read]
    rfl
  · rw [file, shape, survives_iff]
    have inside : logOf before ++ recordText record <+: logOf (before ++ record :: after) :=
      ⟨byte '\n' :: logOf after, by simp [logOf, recordLine_eq]⟩
    constructor
    · exact fun fits => List.prefix_take_iff.mpr ⟨inside, fits⟩
    · exact fun held => (List.prefix_take_iff.mp held).2

/-- The promise of the log over one crash: before it, file and staging buffer
hold the lines appended so far with fewer than a window of them staged; after
it, a new store reads the records whose text lies within the surviving bytes,
all but at most the last window of them. -/
structure Durable (store : WalStore) (records : List Json) (next : Option Json) (reached : Nat) : Prop where
  bytes : store.files.wal ++ store.pending = logOf records
  few : Staged store records kCommitBatch
  recovered : ∃ reread kept lost, records ++ next.toList = kept ++ lost ∧ lost.length ≤ kCommitBatch ∧
    (WalStore.open_ (crashed (atCrash store next) reached)).replayCommands = .ok (reread, kept) ∧
    ∀ before record after, records ++ next.toList = before ++ record :: after →
      (before.length < kept.length ↔
        logOf before ++ recordText record <+: (crashed (atCrash store next) reached).wal)

/-- Every run of appends and flushes on an empty log, crashed between two calls
or inside an append, with any front of the staged bytes in the file. -/
theorem crash_keeps_a_front (files : Files) (empty : files.wal = []) (calls : List WalCall)
    (next : Option Json) (reached : Nat)
    (plain : ∀ record ∈ appended calls ++ next.toList, doubleFree record = true)
    (distinct : ∀ record ∈ appended calls ++ next.toList, NoFrontCollides record) :
    Durable (calls.foldl call (.open_ files)) (appended calls) next reached := by
  have start : Staged (.open_ files) [] kCommitBatch :=
    ⟨rfl, [], [], rfl, empty, rfl, rfl, by decide⟩
  have staged : Staged (calls.foldl call (.open_ files)) (appended calls) kCommitBatch := by
    simpa using staged_calls start calls
  obtain ⟨reread, kept, lost, parts, few, read, exactly⟩ :=
    crash_recovers (staged_atCrash staged next) plain distinct reached
  exact ⟨staged_bytes staged, staged, reread, kept, lost, parts, by omega, read, exactly⟩

/-- Two cancels and a flush, then a crash in a third append with half of its
line in the file. -/
theorem cancels_keep_a_front :
    Durable ([WalCall.append (cancelRecord 1), .flush, .append (cancelRecord 2)].foldl call (.open_ {}))
      [cancelRecord 1, cancelRecord 2] (some (cancelRecord 3)) 90 :=
  crash_keeps_a_front {} rfl [.append (cancelRecord 1), .flush, .append (cancelRecord 2)]
    (some (cancelRecord 3)) 90 (by decide) (by
      have fronts : ∀ record ∈ [cancelRecord 1, cancelRecord 2, cancelRecord 3],
          ∀ size < record.dump.length, crc32 (record.dump.take size) ≠ crc32 record.dump := by
        decide +kernel
      exact fun record member => noFrontCollides_of_sizes (fronts record member))

end Exchange.GroupCommit
