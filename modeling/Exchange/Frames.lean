import Exchange.OrderEntry
import Exchange.StreamReader
import Exchange.WireFormat

/-! Frames on a stream. What `parse_frame` finds depends on the bytes from the
offset on and does not change when more arrive, so the parse loop is a reader
of the stream. A stream of encoded commands is read back command by command. -/
namespace Exchange.Frames
open WireFormat

/-! ## One frame -/

/-- Parsing at an offset is parsing what follows it. -/
theorem parseFrame_drop (data : Bytes) (offset : Nat) : parseFrame data offset =
    (parseFrame (data.drop offset) 0).map (Option.map fun found => (found.1, found.2.1, offset + found.2.2)) := by
  have byte : getU8 (data.drop offset) 0 = getU8 data offset := by simp [getU8]
  have word : ∀ at_, getU32 (data.drop offset) at_ = getU32 data (offset + at_) := by simp [getU32, substr]
  have field : ∀ at_ count, substr (data.drop offset) at_ count = substr data (offset + at_) count := by simp [substr]
  have size : ∀ at_, data.length - offset - at_ = data.length - (offset + at_) := by omega
  simp only [parseFrame, List.length_drop, byte, word, field, size, Nat.zero_add, Nat.add_zero, throwRuntime]
  split
  · rfl
  · split
    · rfl
    · simp only [← Nat.add_assoc]
      split
      · rfl
      · simp only [Except.map, Option.map_some, Nat.add_assoc]

/-- What follows the type and the length field decides. -/
theorem parseFrame_header (type : UInt8) {len : Bytes} (width : len.length = 4) (rest : Bytes) :
    parseFrame (type :: (len ++ rest)) 0 =
      if rest.length < BigEndian.get len + 4 then .ok none
      else if crc32 (rest.take (BigEndian.get len)) ≠
          UInt32.ofNat (BigEndian.get ((rest.drop (BigEndian.get len)).take 4)) then
        throwRuntime "frame crc mismatch"
      else .ok (some (⟨type⟩, rest.take (BigEndian.get len), 5 + BigEndian.get len + 4)) := by
  have fits := BigEndian.get_lt len
  rw [width] at fits
  have length : (getU32 (type :: (len ++ rest)) 1).toNat = BigEndian.get len := by
    rw [getU32, substr, List.drop_one, List.tail_cons, List.take_left' width]
    exact UInt32.toNat_ofNat_of_lt' fits
  have body : ∀ at_ count, substr (type :: (len ++ rest)) (5 + at_) count = substr rest at_ count := by
    intro at_ count
    rw [substr, substr, ← List.drop_drop, ← List.cons_append, List.drop_left' (by simp [width])]
  have whole : substr (type :: (len ++ rest)) 5 (BigEndian.get len) = rest.take (BigEndian.get len) := body 0 _
  have size : (type :: (len ++ rest)).length = rest.length + 5 := by
    simp [width]
    omega
  have enough : ¬ rest.length + 5 - 0 < 5 := by omega
  have first : getU8 (type :: (len ++ rest)) 0 = type := rfl
  have check : getU32 (type :: (len ++ rest)) (5 + BigEndian.get len) =
      UInt32.ofNat (BigEndian.get ((rest.drop (BigEndian.get len)).take 4)) := by
    rw [getU32, body, substr]
  simp only [parseFrame, size, if_neg enough, Nat.zero_add, length, first, Nat.add_sub_cancel, whole, check]

/-- Something is found only behind a type and a length field. -/
theorem frame_head {data : Bytes} (found : parseFrame data 0 ≠ .ok none) :
    ∃ type len rest, data = type :: (len ++ rest) ∧ List.length len = 4 := by
  match data with
  | type :: b0 :: b1 :: b2 :: b3 :: rest => exact ⟨type, [b0, b1, b2, b3], rest, rfl, rfl⟩
  | [] | [_] | [_, _] | [_, _, _] | [_, _, _, _] => exact absurd rfl found

/-- Bytes that arrive later do not change what has been found. -/
theorem parseFrame_settled {data : Bytes} (found : parseFrame data 0 ≠ .ok none) (more : Bytes) :
    parseFrame (data ++ more) 0 = parseFrame data 0 := by
  obtain ⟨type, len, rest, rfl, width⟩ := frame_head found
  rw [parseFrame_header type width] at found
  have complete : ¬ rest.length < BigEndian.get len + 4 := fun short => found (if_pos short)
  have later : ¬ (rest ++ more).length < BigEndian.get len + 4 := by
    rw [List.length_append]
    omega
  have body : (rest ++ more).take (BigEndian.get len) = rest.take (BigEndian.get len) :=
    List.take_append_of_le_length (by omega)
  have check : ((rest ++ more).drop (BigEndian.get len)).take 4 = (rest.drop (BigEndian.get len)).take 4 := by
    rw [List.drop_append_of_le_length (by omega), List.take_append_of_le_length]
    rw [List.length_drop]
    omega
  rw [List.cons_append, List.append_assoc, parseFrame_header type width, parseFrame_header type width, if_neg complete,
    if_neg later, body, check]

theorem frame_shape (type : MessageType) (payload : Bytes) : frameMessage type payload =
    type.code :: (putU32 (UInt32.ofNat payload.length) ++ (payload ++ putU32 (crc32 payload))) := by
  simp [frameMessage, putU8]

@[simp] theorem putU32_length (value : UInt32) : (putU32 value).length = 4 := BigEndian.put_length _ _

@[simp] theorem get_putU32 (value : UInt32) : BigEndian.get (putU32 value) = value.toNat :=
  BigEndian.get_put_of_lt value.toNat_lt

theorem frame_parses (type : MessageType) {payload : Bytes} (short : payload.length < 2 ^ 32) :
    parseFrame (frameMessage type payload) 0 = .ok (some (type, payload, (frameMessage type payload).length)) := by
  rw [frame_shape, parseFrame_header _ (putU32_length _), get_putU32, UInt32.toNat_ofNat_of_lt' short,
    if_neg (by simp), List.take_left, List.drop_left, List.take_of_length_le (putU32_length _).le, get_putU32,
    UInt32.ofNat_toNat, if_neg (by simp)]
  simp
  omega

/-! ## The parse loop as a reader -/

variable {β : Type} {visit : MessageType → Bytes → Except RuntimeError β}

/-- One turn of the loop, with the bytes behind the frame. -/
def readFrame (visit : MessageType → Bytes → Except RuntimeError β) (data : Bytes) :
    Except RuntimeError (Option (β × Bytes)) :=
  match parseFrame data 0 with
  | .error fault => .error fault
  | .ok none => .ok none
  | .ok (some (type, payload, next)) => (visit type payload).map fun result => some (result, data.drop next)

def frameReader (visit : MessageType → Bytes → Except RuntimeError β) : Reader UInt8 RuntimeError β where
  read := readFrame visit
  shrinks := by
    intro data item rest found
    unfold readFrame at found
    split at found
    · cases found
    · cases found
    · rename_i type payload next parsed
      cases visited : visit type payload with
      | error fault => simp [visited, Except.map] at found
      | ok result =>
        simp only [visited, Except.map, Except.ok.injEq, Option.some.injEq, Prod.mk.injEq] at found
        rw [← found.2, List.length_drop]
        have bounds := parseFrame_advances parsed
        omega
  settled := by
    intro data item rest more found
    unfold readFrame at found ⊢
    split at found
    · cases found
    · cases found
    · rename_i type payload next parsed
      rw [parseFrame_settled (by simp [parsed]), parsed]
      cases visited : visit type payload with
      | error fault => simp [visited, Except.map] at found
      | ok result =>
        simp only [visited, Except.map, Except.ok.injEq, Option.some.injEq, Prod.mk.injEq] at found ⊢
        rw [← found.2, List.drop_append_of_le_length (parseFrame_advances parsed).2]
        exact ⟨found.1, rfl⟩
  broken := by
    intro data fault more found
    unfold readFrame at found ⊢
    split at found
    · rename_i fault parsed
      rw [parseFrame_settled (by simp [parsed]), parsed]
      exact found
    · cases found
    · rename_i type payload next parsed
      rw [parseFrame_settled (by simp [parsed]), parsed]
      cases visited : visit type payload with
      | error fault =>
        simp only [visited, Except.map] at found ⊢
        exact found
      | ok result => simp [visited, Except.map] at found

theorem read_drop (visit : MessageType → Bytes → Except RuntimeError β) (data : Bytes) (offset : Nat) :
    (frameReader visit).read (data.drop offset) =
      match parseFrame data offset with
      | .error fault => .error fault
      | .ok none => .ok none
      | .ok (some (type, payload, next)) => (visit type payload).map fun result => some (result, data.drop next) := by
  simp only [frameReader, readFrame]
  rw [parseFrame_drop data offset]
  cases parseFrame (data.drop offset) 0 with
  | error fault => rfl
  | ok found =>
    cases found with
    | none => rfl
    | some found => simp only [Except.map, Option.map_some, List.drop_drop]

/-- The loop reads the stream from the offset on, and the offset it ends with
marks the bytes left over. -/
theorem parseLoop_reads (visit : MessageType → Bytes → Except RuntimeError β) (data : Bytes) (offset : Nat)
    (inside : offset ≤ data.length) :
    (parseLoop visit data offset).1 = ((frameReader visit).readAll (data.drop offset)).1 ∧
    (parseLoop visit data offset).2.map (data.drop ·) = ((frameReader visit).readAll (data.drop offset)).2 ∧
    ∀ last, (parseLoop visit data offset).2 = .ok last → last ≤ data.length := by
  have found := read_drop visit data offset
  fun_induction parseLoop visit data offset with
  | case1 offset fault parsed =>
    rw [parsed] at found
    rw [Reader.readAll_broken found]
    exact ⟨rfl, rfl, by simp⟩
  | case2 offset parsed =>
    rw [parsed] at found
    rw [Reader.readAll_waits found]
    refine ⟨rfl, rfl, fun last same => ?_⟩
    cases same
    exact inside
  | case3 offset type payload next parsed fault visited =>
    simp only [parsed, visited, Except.map] at found
    rw [Reader.readAll_broken found]
    exact ⟨rfl, rfl, by simp⟩
  | case4 offset type payload next parsed result visited bounds results last rest ih =>
    simp only [parsed, visited, Except.map] at found
    obtain ⟨items, left, limit⟩ := ih bounds.2 (read_drop visit data next)
    rw [rest] at items left limit
    rw [Reader.readAll_item found]
    exact ⟨congrArg (result :: ·) items, left, limit⟩

/-! ## Streams of commands -/

/-- The strings of the command fit their length bytes. -/
def Encodable : Command → Prop
  | .add cmd => cmd.symbol.length ≤ 255 ∧ cmd.participantId.length ≤ 255
  | .cancel cmd => cmd.symbol.length ≤ 255
  | .replace cmd => cmd.symbol.length ≤ 255

instance : DecidablePred Encodable := fun command =>
  match command with
  | .add cmd => inferInstanceAs (Decidable (cmd.symbol.length ≤ 255 ∧ cmd.participantId.length ≤ 255))
  | .cancel cmd => inferInstanceAs (Decidable (cmd.symbol.length ≤ 255))
  | .replace cmd => inferInstanceAs (Decidable (cmd.symbol.length ≤ 255))

/-- The frames of all commands, one behind the other. -/
def encodeAll : List Command → Except RuntimeError Bytes
  | [] => .ok []
  | command :: commands => do
    let frame ← encodeCommand command
    let frames ← encodeAll commands
    .ok (frame ++ frames)

/-- The message a command is sent as. -/
inductive SentAs : Command → MessageType → Bytes → Prop where
  | add {cmd : AddOrder} {payload : Bytes} (packed : packAddOrder cmd = .ok payload) :
      SentAs (.add cmd) .add payload
  | cancel {cmd : CancelOrder} {payload : Bytes} (packed : packCancelOrder cmd = .ok payload) :
      SentAs (.cancel cmd) .cancel payload
  | replace {cmd : ReplaceOrder} {payload : Bytes} (packed : packReplaceOrder cmd = .ok payload) :
      SentAs (.replace cmd) .replace payload

theorem exists_sentAs {command : Command} (encodable : Encodable command) :
    ∃ type payload, SentAs command type payload := by
  cases command with
  | add cmd => exact ⟨_, _, .add ((packAddOrder_iff cmd _).mpr ⟨encodable.1, encodable.2, rfl⟩)⟩
  | cancel cmd => exact ⟨_, _, .cancel ((packCancelOrder_iff cmd _).mpr ⟨encodable, rfl⟩)⟩
  | replace cmd => exact ⟨_, _, .replace ((packReplaceOrder_iff cmd _).mpr ⟨encodable, rfl⟩)⟩

theorem encodeCommand_sentAs {command : Command} {wire : Bytes} (encoded : encodeCommand command = .ok wire) :
    ∃ type payload, SentAs command type payload ∧ frameMessage type payload = wire := by
  cases command with
  | add cmd =>
    cases packed : packAddOrder cmd with
    | error fault => simp [encodeCommand, packed, Except.map] at encoded
    | ok payload =>
      simp only [encodeCommand, packed, Except.map, Except.ok.injEq] at encoded
      exact ⟨.add, payload, .add packed, encoded⟩
  | cancel cmd =>
    cases packed : packCancelOrder cmd with
    | error fault => simp [encodeCommand, packed, Except.map] at encoded
    | ok payload =>
      simp only [encodeCommand, packed, Except.map, Except.ok.injEq] at encoded
      exact ⟨.cancel, payload, .cancel packed, encoded⟩
  | replace cmd =>
    cases packed : packReplaceOrder cmd with
    | error fault => simp [encodeCommand, packed, Except.map] at encoded
    | ok payload =>
      simp only [encodeCommand, packed, Except.map, Except.ok.injEq] at encoded
      exact ⟨.replace, payload, .replace packed, encoded⟩

section Sent
variable {command : Command} {type : MessageType} {payload : Bytes} (sent : SentAs command type payload)
include sent

theorem sentAs_encodes : encodeCommand command = .ok (frameMessage type payload) := by
  cases sent with
  | add packed => simp only [encodeCommand, packed, Except.map]
  | cancel packed => simp only [encodeCommand, packed, Except.map]
  | replace packed => simp only [encodeCommand, packed, Except.map]

theorem sentAs_decodes : decodeCommand type payload = .ok command := by
  cases sent with
  | add packed => simp [decodeCommand, unpack_packed_add packed, Except.map]
  | cancel packed =>
    have other : MessageType.cancel ≠ .add := by decide
    simp [decodeCommand, other, unpack_packed_cancel packed, Except.map]
  | replace packed =>
    have others : MessageType.replace ≠ .add ∧ MessageType.replace ≠ .cancel := by decide
    simp [decodeCommand, others, unpack_packed_replace packed, Except.map]

theorem sentAs_notEvent : type ≠ .event := by
  cases sent <;> decide

theorem sentAs_short : payload.length < 2 ^ 32 := by
  have first := (getU8 payload 0).toNat_lt
  have second := (getU8 payload 1).toNat_lt
  cases sent with
  | add packed =>
    have length := packed_length_add packed
    rw [kHeaderSize] at length
    omega
  | cancel packed =>
    have length := packed_length_cancel packed
    omega
  | replace packed =>
    have length := packed_length_replace packed
    rw [kReplaceHead] at length
    omega

end Sent

/-- The bytes of messages sent one behind the other. -/
def framesOf (messages : List (MessageType × Bytes)) : Bytes :=
  messages.flatMap fun message => frameMessage message.1 message.2

theorem encodeAll_sentAs {commands : List Command} (encodable : ∀ command ∈ commands, Encodable command) :
    ∃ messages, encodeAll commands = .ok (framesOf messages) ∧
      List.Forall₂ (fun message command => SentAs command message.1 message.2) messages commands := by
  induction commands with
  | nil => exact ⟨[], rfl, .nil⟩
  | cons command commands ih =>
    obtain ⟨type, payload, sent⟩ := exists_sentAs (encodable command (by simp))
    obtain ⟨messages, rest, all⟩ := ih fun later member => encodable later (by simp [member])
    refine ⟨(type, payload) :: messages, ?_, .cons sent all⟩
    simp only [encodeAll, sentAs_encodes sent, rest, bind, Except.bind, framesOf, List.flatMap_cons]

/-- A message that is visited without a fault is read off the front. -/
theorem readAll_frame {message : MessageType × Bytes} {result : β} (short : message.2.length < 2 ^ 32)
    (visited : visit message.1 message.2 = .ok result) (more : Bytes) :
    (frameReader visit).readAll (frameMessage message.1 message.2 ++ more) =
      (result :: ((frameReader visit).readAll more).1, ((frameReader visit).readAll more).2) := by
  have found : (frameReader visit).read (frameMessage message.1 message.2) = .ok (some (result, [])) := by
    simp only [frameReader, readFrame, frame_parses message.1 short, visited, Except.map, List.drop_length]
  rw [Reader.readAll_item ((frameReader visit).settled more found), List.nil_append]

theorem readAll_frames {messages : List (MessageType × Bytes)} {results : List β}
    (visited : List.Forall₂ (fun message result =>
      message.2.length < 2 ^ 32 ∧ visit message.1 message.2 = .ok result) messages results) :
    (frameReader visit).readAll (framesOf messages) = (results, .ok []) := by
  induction visited with
  | nil => exact Reader.readAll_waits rfl
  | cons first rest ih =>
    rw [framesOf, List.flatMap_cons, readAll_frame first.1 first.2, ← framesOf, ih]

/-- A stream that is read to its end takes the loop to its length. -/
theorem parseLoop_whole {data : Bytes} {results : List β}
    (whole : (frameReader visit).readAll data = (results, .ok [])) :
    parseLoop visit data 0 = (results, .ok data.length) := by
  obtain ⟨items, left, limit⟩ := parseLoop_reads visit data 0 (Nat.zero_le _)
  rw [List.drop_zero, whole] at items left
  generalize parseLoop visit data 0 = result at items left limit
  obtain ⟨found, last⟩ := result
  cases last with
  | error fault => cases left
  | ok last =>
    have nothing : data.drop last = [] := Except.ok.inj left
    have reached : last = data.length := Nat.le_antisymm (limit last rfl) (List.drop_eq_nil_iff.mp nothing)
    exact Prod.ext items (congrArg Except.ok reached)

/-- A message to be extracted as it is. -/
def extract (type : MessageType) (payload : Bytes) : Except RuntimeError (MessageType × Bytes) := .ok (type, payload)

theorem extracts {messages : List (MessageType × Bytes)} {commands : List Command}
    (all : List.Forall₂ (fun message command => SentAs command message.1 message.2) messages commands) :
    List.Forall₂ (fun message result => message.2.length < 2 ^ 32 ∧ extract message.1 message.2 = .ok result)
      messages messages := by
  induction all with
  | nil => exact .nil
  | cons sent _ ih => exact .cons ⟨sentAs_short sent, rfl⟩ ih

/-- Parsing the frames of any commands extracts one message for each, leaves no
byte, and the messages decode to the commands in their order. -/
theorem stream_round_trip (commands : List Command) (encodable : ∀ command ∈ commands, Encodable command) :
    ∃ wire messages, encodeAll commands = .ok wire ∧ parseLoop extract wire 0 = (messages, .ok wire.length) ∧
      messages.length = commands.length ∧
      List.Forall₂ (fun message command => decodeCommand message.1 message.2 = .ok command) messages commands := by
  obtain ⟨messages, encoded, all⟩ := encodeAll_sentAs encodable
  exact ⟨framesOf messages, messages, encoded, parseLoop_whole (readAll_frames (extracts all)),
    all.length_eq, all.imp fun _ _ sent => sentAs_decodes sent⟩

/-- One command of each kind, with negative values and bytes that are not text. -/
def mixedCommands : List Command :=
  [.add { symbol := [0, 255], orderId := -1, participantId := [], side := .sell, priceTicks := -9, quantity := 5,
          timeInForce := .fok, stp := .cancelBoth },
    .cancel { symbol := [], orderId := 7 },
    .replace { symbol := ascii "S", orderId := 7, newOrderId := -8, newPriceTicks := 100, newQuantity := 2,
               timeInForce := .ioc }]

theorem mixed_commands_round_trip :
    ∃ wire messages, encodeAll mixedCommands = .ok wire ∧
      parseLoop extract wire 0 = (messages, .ok wire.length) ∧ messages.length = mixedCommands.length ∧
      List.Forall₂ (fun message command => decodeCommand message.1 message.2 = .ok command) messages mixedCommands :=
  stream_round_trip mixedCommands (by decide)

end Exchange.Frames
