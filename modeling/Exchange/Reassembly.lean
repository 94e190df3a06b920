import Exchange.Frames

/-! Reassembly on a connection. Draining a connection again and again is
feeding the frame reader in pieces, so how the stream was cut into batches
shows nowhere. The end of the stream is the exception: the call that sees it
returns before it parses, and what arrived in that call is lost. -/
namespace Exchange.Reassembly
open Frames

/-- The reader the server runs on each connection. -/
abbrev reader : Reader UInt8 RuntimeError (Option Command) := frameReader takeMessage

/-- How a connection stands after a pass: dropped after a fault, else open with
the bytes left over. -/
def Stands (conn : Conn) : Except RuntimeError Bytes → Prop
  | .error _ => conn.isOpen = false
  | .ok rest => conn = { isOpen := true, buffer := rest }

variable {conn : Conn}

/-- One call without the end of the stream is one pass of the reader. -/
theorem drain_reads (isOpen : conn.isOpen = true) (chunks : List Bytes) :
    (drainConnection conn { chunks := chunks }).2 =
      (reader.readAll (conn.buffer ++ chunks.flatten)).1.reduceOption ∧
    Stands (drainConnection conn { chunks := chunks }).1 (reader.readAll (conn.buffer ++ chunks.flatten)).2 := by
  obtain ⟨items, left, -⟩ := parseLoop_reads takeMessage (conn.buffer ++ chunks.flatten) 0 (Nat.zero_le _)
  rw [List.drop_zero] at items left
  rw [← items, ← left]
  simp only [drainConnection, Bool.false_eq_true, ↓reduceIte]
  generalize parseLoop takeMessage (conn.buffer ++ chunks.flatten) 0 = result
  obtain ⟨taken, last⟩ := result
  cases last with
  | error fault => exact ⟨rfl, rfl⟩
  | ok offset => exact ⟨rfl, by rw [isOpen]; rfl⟩

theorem serve_closed (closed : conn.isOpen = false) (arrivals : List Arrival) : serve conn arrivals = (conn, []) := by
  cases arrivals with
  | nil => rfl
  | cons arrival arrivals => simp [serve, closed]

/-- Successive calls feed the reader. -/
theorem serve_feeds (isOpen : conn.isOpen = true) (batches : List (List Bytes)) :
    (serve conn (batches.map fun chunks => { chunks := chunks })).2 =
      (reader.feed (.ok conn.buffer) (batches.map List.flatten)).1.reduceOption ∧
    Stands (serve conn (batches.map fun chunks => { chunks := chunks })).1
      (reader.feed (.ok conn.buffer) (batches.map List.flatten)).2 := by
  induction batches generalizing conn with
  | nil =>
    refine ⟨rfl, ?_⟩
    simp only [List.map_nil, serve, Reader.feed, Stands, ← isOpen]
  | cons chunks batches ih =>
    obtain ⟨items, stands⟩ := drain_reads isOpen chunks
    simp only [List.map_cons, serve, isOpen, ↓reduceIte, Reader.feed, Reader.resume, List.reduceOption_append]
    rw [items]
    generalize (drainConnection conn { chunks := chunks }).1 = next at stands
    cases last : (reader.readAll (conn.buffer ++ chunks.flatten)).2 with
    | error fault =>
      rw [last] at stands
      rw [serve_closed stands, Reader.feed_broken]
      exact ⟨rfl, stands⟩
    | ok rest =>
      rw [last] at stands
      subst stands
      obtain ⟨later, finally_⟩ := @ih { isOpen := true, buffer := rest } rfl
      exact ⟨by rw [later], finally_⟩

/-- A new connection hands over what one pass over the whole stream reads. -/
theorem serve_reads (batches : List (List Bytes)) :
    (serve {} (batches.map fun chunks => { chunks := chunks })).2 =
      (reader.readAll batches.flatten.flatten).1.reduceOption ∧
    Stands (serve {} (batches.map fun chunks => { chunks := chunks })).1
      (reader.readAll batches.flatten.flatten).2 := by
  have feeds := @serve_feeds {} rfl batches
  have whole : reader.feed (.ok []) (batches.map List.flatten) = reader.readAll batches.flatten.flatten := by
    rw [Reader.feed_pieces _ rfl, List.nil_append, List.flatten_flatten]
  rw [whole] at feeds
  exact feeds

/-- However a stream is cut into batches: the same commands, the session dropped
or not, and if not the same bytes left in the buffer, as when it comes at once. -/
theorem batching_is_invisible (batches : List (List Bytes)) :
    (serve {} (batches.map fun chunks => { chunks := chunks })).2 =
      (serve {} [{ chunks := [batches.flatten.flatten] }]).2 ∧
    (serve {} (batches.map fun chunks => { chunks := chunks })).1.isOpen =
      (serve {} [{ chunks := [batches.flatten.flatten] }]).1.isOpen ∧
    ((serve {} [{ chunks := [batches.flatten.flatten] }]).1.isOpen = true →
      (serve {} (batches.map fun chunks => { chunks := chunks })).1.buffer =
        (serve {} [{ chunks := [batches.flatten.flatten] }]).1.buffer) := by
  obtain ⟨items, stands⟩ := serve_reads batches
  obtain ⟨items', stands'⟩ := serve_reads [[batches.flatten.flatten]]
  simp only [List.map_cons, List.map_nil, List.flatten_cons, List.flatten_nil, List.append_nil] at items' stands'
  refine ⟨items.trans items'.symm, ?_⟩
  cases last : (reader.readAll batches.flatten.flatten).2 with
  | error fault =>
    rw [last] at stands stands'
    rw [stands, stands']
    simp
  | ok rest =>
    rw [last] at stands stands'
    rw [stands, stands']
    simp

/-! ## The end of the stream -/

theorem serve_append (conn : Conn) (first second : List Arrival) : serve conn (first ++ second) =
    ((serve (serve conn first).1 second).1, (serve conn first).2 ++ (serve (serve conn first).1 second).2) := by
  induction first generalizing conn with
  | nil => rfl
  | cons arrival first ih =>
    simp only [List.cons_append, serve]
    split
    · simp only [ih, List.append_assoc]
    · rename_i closed
      rw [serve_closed (by simpa using closed), List.nil_append]

/-- The last call hands over nothing. -/
theorem serve_ended (conn : Conn) (chunks : List Bytes) :
    (serve conn [{ chunks := chunks, endOfStream := true }]).2 = [] := by
  simp only [serve, drainConnection, ↓reduceIte]
  split <;> rfl

theorem takes {messages : List (MessageType × Bytes)} {commands : List Command}
    (all : List.Forall₂ (fun message command => SentAs command message.1 message.2) messages commands) :
    List.Forall₂ (fun message result => message.2.length < 2 ^ 32 ∧ takeMessage message.1 message.2 = .ok result)
      messages (commands.map some) := by
  induction all with
  | nil => exact .nil
  | cons sent _ ih =>
    refine .cons ⟨sentAs_short sent, ?_⟩ ih
    rw [takeMessage, if_pos (sentAs_notEvent sent), sentAs_decodes sent]
    rfl

/-- The frames of commands are read as these commands. -/
theorem readAll_encoded {commands : List Command} {wire : Bytes}
    (encodable : ∀ command ∈ commands, Encodable command) (encoded : encodeAll commands = .ok wire) :
    reader.readAll wire = (commands.map some, .ok []) := by
  obtain ⟨messages, same, all⟩ := encodeAll_sentAs encodable
  rw [encoded] at same
  cases same
  exact readAll_frames (takes all)

/-- Whatever the calls before it received: the handler has been given every
command exactly when the call that sees the end of the stream receives no byte. -/
theorem close_delivers_iff (commands : List Command) (encodable : ∀ command ∈ commands, Encodable command)
    (batches : List (List Bytes)) (last : List Bytes)
    (sent : encodeAll commands = .ok (batches.flatten.flatten ++ last.flatten)) :
    (serve {} ((batches.map fun chunks => { chunks := chunks }) ++ [{ chunks := last, endOfStream := true }])).2 =
      commands ↔ last.flatten = [] := by
  obtain ⟨delivered, -⟩ := serve_reads batches
  have whole := readAll_encoded encodable sent
  rw [Reader.readAll_append] at whole
  obtain ⟨items, left⟩ := Prod.mk.inj whole
  rw [serve_append, serve_ended, List.append_nil, delivered]
  cases before : (reader.readAll batches.flatten.flatten).2 with
  | error fault =>
    rw [before] at left
    cases left
  | ok rest =>
    simp only [before, Reader.resume] at items left
    constructor
    · intro all
      -- As many items before the last call as there are commands: nothing is read after it.
      have count := congrArg List.length items
      have few := List.reduceOption_length_le (reader.readAll batches.flatten.flatten).1
      rw [List.length_append, List.length_map] at count
      rw [all] at few
      have none_ : (reader.readAll (rest ++ last.flatten)).1 = [] := List.eq_nil_of_length_eq_zero (by omega)
      have empty := Reader.readAll_nothing _ none_ left
      exact (List.append_eq_nil_iff.mp empty.symm).2
    · intro nothing
      rw [nothing, List.append_nil, Reader.readAll_waits (Reader.readAll_leaves _ before), List.append_nil] at items
      rw [items, List.reduceOption, List.filterMap_map]
      exact List.filterMap_some

def cancelSeven : Command := .cancel { symbol := [], orderId := 7 }

/-- The frame of that command, cut inside its checksum. -/
def cancelBatches : List (List Bytes) := [[[2, 0, 0, 0, 9], [0, 0, 0, 0, 0, 0, 0, 0, 7, 120]], [], [[109, 129, 13]]]

theorem cancel_batches_deliver_iff :
    (serve {} ((cancelBatches.map fun chunks => { chunks := chunks }) ++ [{ chunks := [], endOfStream := true }])).2 =
      [cancelSeven] ↔ ([] : List Bytes).flatten = [] :=
  close_delivers_iff [cancelSeven] (by decide) cancelBatches [] (by decide +kernel)

/-- A client that sends one command and closes at once: the handler never sees it. -/
theorem close_with_the_last_bytes_loses_them :
    ¬ ∀ (commands : List Command) (batches : List (List Bytes)) (last : List Bytes),
      encodeAll commands = .ok (batches.flatten.flatten ++ last.flatten) →
      (serve {} ((batches.map fun chunks => { chunks := chunks }) ++ [{ chunks := last, endOfStream := true }])).2 =
        commands := by
  intro always
  have sent := always [cancelSeven] [] cancelBatches.flatten (by decide +kernel)
  rw [List.map_nil, List.nil_append, serve_ended] at sent
  cases sent

end Exchange.Reassembly
