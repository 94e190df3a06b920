import Mathlib
import Exchange.Json

/-! What the writer writes, the parser reads back: every value without doubles,
whatever bytes its strings and keys hold, followed by anything that cannot
continue a number. -/
namespace Exchange.JsonRoundTrip
open Json

/-! ## Strings -/

theorem stoi16_control : ∀ c : Fin 32, stoi16 (paddedHex 4 c.val) = .ok (c.val : Int) := by
  decide

theorem parseRawString_letter (out rest : Bytes) {e c : UInt8} (plain : e ≠ byte 'u')
    (stands : unescape e = some c) :
    parseRawString out (byte '\\' :: e :: rest) = parseRawString (out ++ [c]) rest := by
  rw [parseRawString.eq_def]
  simp only [show byte '\\' ≠ byte '"' by decide, ↓reduceIte, plain, stands]

theorem parseRawString_code (out rest : Bytes) {d₁ d₂ d₃ d₄ : UInt8} {code : Int}
    (read : stoi16 [d₁, d₂, d₃, d₄] = .ok code) :
    parseRawString out (byte '\\' :: byte 'u' :: d₁ :: d₂ :: d₃ :: d₄ :: rest) =
      parseRawString (out ++ codeBytes code) rest := by
  rw [parseRawString.eq_def]
  simp only [show byte '\\' ≠ byte '"' by decide, ↓reduceIte, read, bind, Except.bind]

theorem codeBytes_control (c : UInt8) (control : c < 0x20) : codeBytes (c.toNat : Int) = [c] := by
  have small : (c.toNat : Int) < 0x80 := by
    have bound : c.toNat < 32 := by simpa [UInt8.lt_iff_toNat_lt] using control
    omega
  have whole : ((c.toNat : Int) % 2 ^ 8).toNat = c.toNat := by omega
  rw [codeBytes, if_pos small, UInt8.ofInt, whole, UInt8.ofNat_toNat]

/-- How one byte is written: as itself, by a letter, or by its code. -/
theorem escape_cases (c : UInt8) :
    (escape c = [c] ∧ c ≠ byte '"' ∧ c ≠ byte '\\' ∧ 0x20 ≤ c) ∨
    (∃ e, escape c = [byte '\\', e] ∧ e ≠ byte 'u' ∧ unescape e = some c ∧ 0x20 ≤ e) ∨
    (c < 0x20 ∧ escape c = byte '\\' :: byte 'u' :: paddedHex 4 c.toNat) := by
  unfold escape
  split
  · rename_i same
    subst same
    exact Or.inr (Or.inl ⟨byte '"', by decide, by decide, by decide, by decide⟩)
  split
  · rename_i same
    subst same
    exact Or.inr (Or.inl ⟨byte '\\', by decide, by decide, by decide, by decide⟩)
  split
  · rename_i same
    subst same
    exact Or.inr (Or.inl ⟨byte 'n', by decide, by decide, by decide, by decide⟩)
  split
  · rename_i same
    subst same
    exact Or.inr (Or.inl ⟨byte 'r', by decide, by decide, by decide, by decide⟩)
  split
  · rename_i same
    subst same
    exact Or.inr (Or.inl ⟨byte 't', by decide, by decide, by decide, by decide⟩)
  split
  · rename_i same
    subst same
    exact Or.inr (Or.inl ⟨byte 'b', by decide, by decide, by decide, by decide⟩)
  split
  · rename_i same
    subst same
    exact Or.inr (Or.inl ⟨byte 'f', by decide, by decide, by decide, by decide⟩)
  split
  · rename_i control
    exact Or.inr (Or.inr ⟨control, rfl⟩)
  · rename_i quote backslash _ _ _ _ _ printable
    exact Or.inl ⟨rfl, quote, backslash, UInt8.not_lt.mp printable⟩

/-- The parser reads one escaped byte as that byte. -/
theorem parseRawString_escape (out rest : Bytes) (c : UInt8) :
    parseRawString out (escape c ++ rest) = parseRawString (out ++ [c]) rest := by
  rcases escape_cases c with ⟨text, quote, backslash, -⟩ | ⟨e, text, plain, stands, -⟩ | ⟨control, text⟩
  · rw [text, List.singleton_append, parseRawString.eq_def]
    simp only [quote, backslash, ↓reduceIte]
  · rw [text]
    exact parseRawString_letter out rest plain stands
  · have small : c.toNat < 32 := by simpa [UInt8.lt_iff_toNat_lt] using control
    have read := stoi16_control ⟨c.toNat, small⟩
    obtain ⟨d₁, d₂, d₃, d₄, digits⟩ :
        ∃ d₁ d₂ d₃ d₄, paddedHex 4 c.toNat = [d₁, d₂, d₃, d₄] :=
      ⟨_, _, _, _, rfl⟩
    rw [digits] at read
    rw [text, digits, ← codeBytes_control c control]
    exact parseRawString_code out rest read

theorem parseRawString_flatMap (out text rest : Bytes) :
    parseRawString out (text.flatMap escape ++ byte '"' :: rest) = .ok (out ++ text, rest) := by
  induction text generalizing out with
  | nil =>
    rw [List.flatMap_nil, List.nil_append, parseRawString.eq_def]
    simp only [↓reduceIte, List.append_nil]
  | cons c text ih =>
    rw [List.flatMap_cons, List.append_assoc, parseRawString_escape, ih]
    simp

/-- A written string or key, after its opening quote. -/
theorem parseRawString_dump (text rest : Bytes) :
    parseRawString [] (text.flatMap escape ++ ([byte '"'] ++ rest)) = .ok (text, rest) := by
  simpa using parseRawString_flatMap [] text rest

/-! ## Numbers -/

theorem digitByte_digit : ∀ digit : Fin 10,
    isDigit (digitByte digit.val) = true ∧ digitValue (digitByte digit.val) = digit.val := by
  decide

theorem decimalValue_append (first : Bytes) (c : UInt8) :
    decimalValue (first ++ [c]) = decimalValue first * 10 + digitValue c := by
  simp [decimalValue]

theorem decimalDigits_value {fuel : Nat} (value : Nat) (enough : value < fuel) :
    decimalValue (decimalDigits fuel value) = value ∧ decimalDigits fuel value ≠ [] ∧
      ∀ c ∈ decimalDigits fuel value, isDigit c = true := by
  induction fuel generalizing value with
  | zero => omega
  | succ fuel ih =>
    rw [decimalDigits]
    split
    · rename_i small
      obtain ⟨digit, worth⟩ := digitByte_digit ⟨value, small⟩
      refine ⟨by simpa [decimalValue] using worth, by simp, ?_⟩
      simpa using digit
    · obtain ⟨front, -, digits⟩ := ih (value / 10) (by omega)
      obtain ⟨digit, worth⟩ := digitByte_digit ⟨value % 10, by omega⟩
      refine ⟨?_, by simp, ?_⟩
      · rw [decimalValue_append, front, worth]
        show value / 10 * 10 + value % 10 = value
        omega
      · intro c member
        rcases List.mem_append.mp member with before | last
        · exact digits c before
        · rw [List.mem_singleton.mp last]
          exact digit

theorem decimal_value (value : Nat) :
    decimalValue (decimal value) = value ∧ decimal value ≠ [] ∧ ∀ c ∈ decimal value, isDigit c = true :=
  decimalDigits_value value (Nat.lt_succ_self value)

/-- A text that does not go on with a byte of a number. -/
def EndsNumber (rest : Bytes) : Prop :=
  ∀ c ∈ rest.head?, isDigit c = false ∧ isNumberMark c = false

theorem splitWhile_append {keep : UInt8 → Bool} {front rest : Bytes} (kept : ∀ c ∈ front, keep c = true)
    (stops : ∀ c ∈ rest.head?, keep c = false) : splitWhile keep (front ++ rest) = (front, rest) := by
  rw [splitWhile, List.takeWhile_append_of_pos kept, List.dropWhile_append_of_pos kept]
  cases rest with
  | nil => simp
  | cons c rest => simp [stops c (by simp)]

/-- A property of all bytes can be checked byte by byte. -/
theorem forall_byte {P : UInt8 → Prop} (each : ∀ n : Fin 256, P (UInt8.ofNat n)) (c : UInt8) : P c := by
  have here := each ⟨c.toNat, c.toNat_lt⟩
  rwa [UInt8.ofNat_toNat] at here

theorem digit_not_mark (c : UInt8) : isDigit c = true → isNumberMark c = false :=
  forall_byte (P := fun c => isDigit c = true → isNumberMark c = false) (by decide +kernel) c

/-- A written integer is read back, if nothing after it belongs to a number. -/
theorem parseNumber_integerText (value : Int64) {rest : Bytes} (ends : EndsNumber rest) :
    parseNumber (integerText value ++ rest) = .ok (.int value, rest) := by
  obtain ⟨worth, filled, digits⟩ := decimal_value value.toInt.natAbs
  have stops : ∀ c ∈ rest.head?, (isDigit c || isNumberMark c) = false := by
    intro c member
    simp [ends c member]
  have split : splitWhile (fun c => isDigit c || isNumberMark c) (decimal value.toInt.natAbs ++ rest) =
      (decimal value.toInt.natAbs, rest) :=
    splitWhile_append (fun c member => by simp [digits c member]) stops
  have unmarked : (decimal value.toInt.natAbs).any isNumberMark = false := by
    rw [List.any_eq_false]
    intro c member
    simpa using digit_not_mark c (digits c member)
  have low := value.le_toInt
  have high := value.toInt_lt
  by_cases negative : value.toInt < 0
  · have read : stoll true (decimal value.toInt.natAbs) = .ok value := by
      have same : -(value.toInt.natAbs : Int) = value.toInt := by omega
      simp only [stoll, filled, ↓reduceIte, worth, same, Int64.ofInt_toInt]
      rw [if_pos ⟨low, high⟩]
    simp [parseNumber, integerText, negative, split, unmarked, read, bind, Except.bind]
  · have read : stoll false (decimal value.toInt.natAbs) = .ok value := by
      have same : (value.toInt.natAbs : Int) = value.toInt := by omega
      simp only [stoll, filled, ↓reduceIte, worth, same, Int64.ofInt_toInt, Bool.false_eq_true]
      rw [if_pos ⟨low, high⟩]
    obtain ⟨first, others, shape⟩ := List.exists_cons_of_ne_nil filled
    have head : first ≠ byte '-' := by
      rintro rfl
      have digit := digits (byte '-') (by simp [shape])
      revert digit
      decide
    have unsigned : (integerText value ++ rest).head? ≠ some (byte '-') := by
      simp [integerText, negative, shape, head]
    simp only [parseNumber, unsigned, decide_false, Bool.false_eq_true, ↓reduceIte, Bool.not_false,
      Bool.true_and]
    simp [integerText, negative, split, unmarked, read, bind, Except.bind, filled]

/-! ## Values -/

mutual

/-- No double occurs in the value. -/
def doubleFree : Json → Bool
  | .double _ => false
  | .array items => itemsDoubleFree items
  | .object members => membersDoubleFree members
  | _ => true

def itemsDoubleFree : List Json → Bool
  | [] => true
  | item :: rest => doubleFree item && itemsDoubleFree rest

def membersDoubleFree : List (Bytes × Json) → Bool
  | [] => true
  | (_, value) :: rest => doubleFree value && membersDoubleFree rest

end

theorem skipWs_cons {c : UInt8} (solid : isWs c = false) (rest : Bytes) : skipWs (c :: rest) = c :: rest := by
  simp [skipWs, solid]

theorem endsNumber_cons {c : UInt8} (other : isDigit c = false) (mark : isNumberMark c = false)
    (rest : Bytes) : EndsNumber (c :: rest) := by
  intro d member
  cases member
  exact ⟨other, mark⟩

theorem integerText_head (value : Int64) :
    ∃ c tail, integerText value = c :: tail ∧ (isDigit c = true ∨ c = byte '-') := by
  obtain ⟨-, filled, digits⟩ := decimal_value value.toInt.natAbs
  obtain ⟨first, others, shape⟩ := List.exists_cons_of_ne_nil filled
  unfold integerText
  split
  · exact ⟨byte '-', _, rfl, Or.inr rfl⟩
  · exact ⟨first, others, shape, Or.inl (digits first (by simp [shape]))⟩

/-- The bytes that begin a number begin nothing else. -/
theorem number_head (c : UInt8) : isDigit c = true ∨ c = byte '-' →
    isWs c = false ∧ c ≠ byte '\x7b' ∧ c ≠ byte '[' ∧ c ≠ byte '"' ∧ c ≠ byte 't' ∧ c ≠ byte 'f' ∧
      c ≠ byte 'n' ∧ c ≠ byte ']' :=
  forall_byte (P := fun c => isDigit c = true ∨ c = byte '-' →
    isWs c = false ∧ c ≠ byte '\x7b' ∧ c ≠ byte '[' ∧ c ≠ byte '"' ∧ c ≠ byte 't' ∧ c ≠ byte 'f' ∧
      c ≠ byte 'n' ∧ c ≠ byte ']') (by decide +kernel) c

/-- A written value starts with a byte that is neither blank nor a closing bracket. -/
theorem dump_head (value : Json) (plain : doubleFree value = true) :
    ∃ c tail, value.dump = c :: tail ∧ isWs c = false ∧ c ≠ byte ']' := by
  cases value with
  | null => exact ⟨byte 'n', _, rfl, by decide, by decide⟩
  | bool value => cases value <;> exact ⟨_, _, rfl, by decide, by decide⟩
  | int value =>
    obtain ⟨c, tail, shape, head⟩ := integerText_head value
    have facts := number_head c head
    exact ⟨c, tail, by rw [dump, shape], facts.1, facts.2.2.2.2.2.2.2⟩
  | double value => simp [doubleFree] at plain
  | string value => exact ⟨byte '"', _, by rw [dump, dumpString], by decide, by decide⟩
  | array items => exact ⟨byte '[', _, by rw [dump], by decide, by decide⟩
  | object members => exact ⟨byte '\x7b', _, by rw [dump], by decide, by decide⟩

theorem dumpItems_head (item : Json) (items : List Json) (plain : itemsDoubleFree (item :: items) = true) :
    ∃ c tail, dumpItems (item :: items) = c :: tail ∧ isWs c = false ∧ c ≠ byte ']' := by
  rw [itemsDoubleFree, Bool.and_eq_true] at plain
  obtain ⟨c, tail, shape, solid, inside⟩ := dump_head item plain.1
  cases items with
  | nil => exact ⟨c, tail, by rw [dumpItems, shape], solid, inside⟩
  | cons next items =>
    refine ⟨c, tail ++ byte ',' :: dumpItems (next :: items), ?_, solid, inside⟩
    rw [dumpItems, shape, List.cons_append]
    simp

theorem dumpMembers_head (member : Bytes × Json) (members : List (Bytes × Json)) :
    ∃ tail, dumpMembers (member :: members) = byte '"' :: tail := by
  obtain ⟨key, value⟩ := member
  cases members with
  | nil => exact ⟨_, by rw [dumpMembers, dumpString, List.cons_append]⟩
  | cons next members => exact ⟨_, by rw [dumpMembers, dumpString, List.cons_append, List.cons_append]; simp⟩

theorem takeLiteral_append (literal : String) (rest : Bytes) :
    takeLiteral literal (ascii literal ++ rest) = some rest := by
  have size : literal.length = (ascii literal).length := by
    rw [ascii, List.length_map, String.length_toList]
  rw [takeLiteral, if_pos (List.prefix_append _ _), size, List.drop_left]

theorem parseNull_null (rest : Bytes) : parseNull (ascii "null" ++ rest) = .ok (.null, rest) := by
  rw [parseNull, takeLiteral_append]

theorem parseBool_true (rest : Bytes) : parseBool (ascii "true" ++ rest) = .ok (.bool true, rest) := by
  rw [parseBool, takeLiteral_append]

theorem parseBool_false (rest : Bytes) : parseBool (ascii "false" ++ rest) = .ok (.bool false, rest) := by
  have other : takeLiteral "true" (ascii "false" ++ rest) = none := by
    have shape : ascii "false" ++ rest = byte 'f' :: (ascii "alse" ++ rest) := rfl
    have wanted : ascii "true" = byte 't' :: ascii "rue" := rfl
    have differ : ¬ ascii "true" <+: ascii "false" ++ rest := by
      rw [shape, wanted, List.cons_prefix_cons]
      exact fun both => absurd both.1 (by decide)
    rw [takeLiteral, if_neg differ]
  rw [parseBool, other, takeLiteral_append]

/-! The parser on the byte that decides what it does. -/

theorem parseValue_array (fuel : Nat) (rest : Bytes) :
    parseValue (fuel + 1) (byte '[' :: rest) =
      match skipWs rest with
      | [] => fail "unexpected end"
      | d :: after => if d = byte ']' then .ok (.array [], after) else parseItems fuel [] (d :: after) :=
  rfl

theorem parseValue_object (fuel : Nat) (rest : Bytes) :
    parseValue (fuel + 1) (byte '\x7b' :: rest) =
      match skipWs rest with
      | [] => fail "unexpected end"
      | d :: after => if d = byte '\x7d' then .ok (.object [], after) else parseMembers fuel [] (d :: after) :=
  rfl

theorem parseItems_last {fuel : Nat} {before : List Json} {item : Json} {text rest : Bytes}
    (read : parseValue fuel text = .ok (item, byte ']' :: rest)) :
    parseItems (fuel + 1) before text = .ok (.array (before ++ [item]), rest) := by
  rw [parseItems, read]
  rfl

theorem parseItems_more {fuel : Nat} {before : List Json} {item : Json} {text rest : Bytes}
    (read : parseValue fuel text = .ok (item, byte ',' :: rest)) :
    parseItems (fuel + 1) before text = parseItems fuel (before ++ [item]) rest := by
  rw [parseItems, read]
  rfl

theorem parseMembers_last {fuel : Nat} {before : List (Bytes × Json)} {value : Json} {text rest : Bytes}
    (key : Bytes) (read : parseValue fuel text = .ok (value, byte '\x7d' :: rest)) :
    parseMembers (fuel + 1) before (dumpString key ++ byte ':' :: text) =
      .ok (.object (before ++ [(key, value)]), rest) := by
  have named := parseRawString_dump key (byte ':' :: text)
  rw [dumpString, List.cons_append, List.append_assoc]
  show (parseRawString [] _).bind _ = _
  rw [named]
  show (parseValue fuel text).bind _ = _
  rw [read]
  rfl

theorem parseMembers_more {fuel : Nat} {before : List (Bytes × Json)} {value : Json} {text rest : Bytes}
    (key : Bytes) (read : parseValue fuel text = .ok (value, byte ',' :: rest)) :
    parseMembers (fuel + 1) before (dumpString key ++ byte ':' :: text) =
      parseMembers fuel (before ++ [(key, value)]) rest := by
  have named := parseRawString_dump key (byte ':' :: text)
  rw [dumpString, List.cons_append, List.append_assoc]
  show (parseRawString [] _).bind _ = _
  rw [named]
  show (parseValue fuel text).bind _ = _
  rw [read]
  rfl

/-- The bytes that follow a value inside a container end a number. -/
theorem endsNumber_separator (rest : Bytes) : EndsNumber (byte ',' :: rest) ∧
    EndsNumber (byte ']' :: rest) ∧ EndsNumber (byte '\x7d' :: rest) :=
  ⟨endsNumber_cons rfl rfl rest, endsNumber_cons rfl rfl rest, endsNumber_cons rfl rfl rest⟩

mutual

theorem parseValue_dump : ∀ (value : Json), doubleFree value = true → ∀ {rest : Bytes}, EndsNumber rest →
    ∀ (fuel : Nat), value.dump.length < fuel → parseValue fuel (value.dump ++ rest) = .ok (value, rest)
  | _, _, _, _, 0, enough => absurd enough (by omega)
  | .null, _, rest, _, fuel + 1, _ => parseNull_null rest
  | .bool true, _, rest, _, fuel + 1, _ => parseBool_true rest
  | .bool false, _, rest, _, fuel + 1, _ => parseBool_false rest
  | .int value, _, rest, ends, fuel + 1, _ => by
    obtain ⟨c, tail, shape, head⟩ := integerText_head value
    obtain ⟨solid, brace, bracket, quote, true_, false_, null, -⟩ := number_head c head
    have number := parseNumber_integerText value ends
    rw [shape, List.cons_append] at number
    rw [dump, shape, List.cons_append, parseValue, skipWs_cons solid]
    simp only [brace, bracket, quote, true_, false_, null, or_self, ↓reduceIte, number]
  | .double value, plain, _, _, _, _ => by simp [doubleFree] at plain
  | .string value, _, rest, _, fuel + 1, _ => by
    rw [dump, dumpString, List.cons_append, List.append_assoc]
    show (parseRawString [] _).bind _ = _
    rw [parseRawString_dump]
    rfl
  | .array [], _, rest, _, fuel + 1, _ => rfl
  | .array (item :: items), plain, rest, _, fuel + 1, enough => by
    have free : itemsDoubleFree (item :: items) = true := by simpa only [doubleFree] using plain
    have fits : (dumpItems (item :: items)).length + 1 < fuel := by
      simp only [dump, List.length_cons, List.length_append, List.length_nil] at enough
      omega
    have loop := parseItems_dump (item :: items) (by simp) free [] rest fuel fits
    obtain ⟨c, tail, shape, solid, inside⟩ := dumpItems_head item items free
    rw [shape, List.cons_append] at loop
    rw [dump, shape, List.cons_append, parseValue_array]
    simp only [List.append_assoc, List.cons_append, List.nil_append, skipWs_cons solid, inside, ↓reduceIte,
      loop]
  | .object [], _, rest, _, fuel + 1, _ => rfl
  | .object (member :: members), plain, rest, _, fuel + 1, enough => by
    have free : membersDoubleFree (member :: members) = true := by simpa only [doubleFree] using plain
    have fits : (dumpMembers (member :: members)).length + 1 < fuel := by
      simp only [dump, List.length_cons, List.length_append, List.length_nil] at enough
      omega
    have loop := parseMembers_dump (member :: members) (by simp) free [] rest fuel fits
    obtain ⟨tail, shape⟩ := dumpMembers_head member members
    rw [shape, List.cons_append] at loop
    rw [dump, shape, List.cons_append, parseValue_object, List.append_assoc]
    exact loop

theorem parseItems_dump : ∀ (items : List Json), items ≠ [] → itemsDoubleFree items = true →
    ∀ (before : List Json) (rest : Bytes) (fuel : Nat), (dumpItems items).length + 1 < fuel →
      parseItems fuel before (dumpItems items ++ byte ']' :: rest) = .ok (.array (before ++ items), rest)
  | _, _, _, _, _, 0, enough => absurd enough (by omega)
  | [], filled, _, _, _, _, _ => absurd rfl filled
  | [item], _, plain, before, rest, fuel + 1, enough => by
    have free : doubleFree item = true := by simpa [itemsDoubleFree] using plain
    rw [dumpItems]
    exact parseItems_last (parseValue_dump item free (endsNumber_separator rest).2.1 fuel
      (by simp only [dumpItems] at enough; omega))
  | item :: next :: items, _, plain, before, rest, fuel + 1, enough => by
    have free : doubleFree item = true ∧ itemsDoubleFree (next :: items) = true := by
      rw [itemsDoubleFree, Bool.and_eq_true] at plain
      exact plain
    simp only [dumpItems, List.length_append, List.length_cons] at enough
    have read := parseValue_dump item free.1
      (endsNumber_separator (dumpItems (next :: items) ++ byte ']' :: rest)).1 fuel (by omega)
    have loop := parseItems_dump (next :: items) (by simp) free.2 (before ++ [item]) rest fuel (by omega)
    have shape : dumpItems (item :: next :: items) = item.dump ++ byte ',' :: dumpItems (next :: items) := by
      rw [dumpItems]
      simp
    rw [shape, List.append_assoc, List.cons_append, parseItems_more read, loop, List.append_assoc,
      List.singleton_append]

theorem parseMembers_dump : ∀ (members : List (Bytes × Json)), members ≠ [] →
    membersDoubleFree members = true → ∀ (before : List (Bytes × Json)) (rest : Bytes) (fuel : Nat),
      (dumpMembers members).length + 1 < fuel →
      parseMembers fuel before (dumpMembers members ++ byte '\x7d' :: rest) =
        .ok (.object (before ++ members), rest)
  | _, _, _, _, _, 0, enough => absurd enough (by omega)
  | [], filled, _, _, _, _, _ => absurd rfl filled
  | [(key, value)], _, plain, before, rest, fuel + 1, enough => by
    have free : doubleFree value = true := by simpa [membersDoubleFree] using plain
    simp only [dumpMembers, List.length_append, List.length_cons] at enough
    rw [dumpMembers, List.append_assoc, List.cons_append]
    exact parseMembers_last key (parseValue_dump value free (endsNumber_separator rest).2.2 fuel (by omega))
  | (key, value) :: next :: members, _, plain, before, rest, fuel + 1, enough => by
    have free : doubleFree value = true ∧ membersDoubleFree (next :: members) = true := by
      rw [membersDoubleFree, Bool.and_eq_true] at plain
      exact plain
    simp only [dumpMembers, List.length_append, List.length_cons] at enough
    have read := parseValue_dump value free.1
      (endsNumber_separator (dumpMembers (next :: members) ++ byte '\x7d' :: rest)).1 fuel (by omega)
    have loop := parseMembers_dump (next :: members) (by simp) free.2 (before ++ [(key, value)]) rest fuel
      (by omega)
    have shape : dumpMembers ((key, value) :: next :: members) =
        dumpString key ++ byte ':' :: (value.dump ++ byte ',' :: dumpMembers (next :: members)) := by
      rw [dumpMembers]
      · simp
      · simp
    rw [shape, List.append_assoc, List.cons_append, List.append_assoc, List.cons_append,
      parseMembers_more key read, loop, List.append_assoc, List.singleton_append]

end

/-- What is written is read back, also with something after it. -/
theorem parse_dump_append (value : Json) (plain : doubleFree value = true) (rest : Bytes)
    (ends : EndsNumber rest) : parse (value.dump ++ rest) = .ok value := by
  rw [parse, parseValue_dump value plain ends _ (by simp only [List.length_append]; omega)]
  rfl

theorem parse_dump (value : Json) (plain : doubleFree value = true) : parse value.dump = .ok value := by
  have whole := parse_dump_append value plain [] (by intro c member; cases member)
  rwa [List.append_nil] at whole

/-! ## What a written value consists of -/

theorem hexDigit_printable : ∀ digit : Fin 16, (0x20 : UInt8) ≤ hexDigit digit.val := by
  decide

theorem mem_paddedHex {width value : Nat} {c : UInt8} (member : c ∈ paddedHex width value) :
    ∃ digit : Fin 16, c = hexDigit digit.val := by
  simp only [paddedHex, List.mem_reverse, List.mem_map] at member
  obtain ⟨place, -, rfl⟩ := member
  exact ⟨⟨value / 16 ^ place % 16, Nat.mod_lt _ (by omega)⟩, rfl⟩

theorem escape_printable (c : UInt8) : ∀ d ∈ escape c, (0x20 : UInt8) ≤ d := by
  intro d member
  rcases escape_cases c with ⟨same, -, -, printable⟩ | ⟨e, shape, -, -, printable⟩ | ⟨-, shape⟩
  · rw [same, List.mem_singleton] at member
    rw [member]
    exact printable
  · rw [shape, List.mem_cons, List.mem_singleton] at member
    rcases member with rfl | rfl
    · decide
    · exact printable
  · rw [shape, List.mem_cons, List.mem_cons] at member
    rcases member with rfl | rfl | digits
    · decide
    · decide
    · obtain ⟨digit, rfl⟩ := mem_paddedHex digits
      exact hexDigit_printable digit

theorem dumpString_printable (text : Bytes) : ∀ c ∈ dumpString text, (0x20 : UInt8) ≤ c := by
  intro c member
  rw [dumpString, List.mem_cons, List.mem_append, List.mem_flatMap, List.mem_singleton] at member
  rcases member with rfl | ⟨source, -, written⟩ | rfl
  · decide
  · exact escape_printable source c written
  · decide

theorem digit_printable (c : UInt8) : isDigit c = true → (0x20 : UInt8) ≤ c :=
  forall_byte (P := fun c => isDigit c = true → (0x20 : UInt8) ≤ c) (by decide +kernel) c

theorem integerText_printable (value : Int64) : ∀ c ∈ integerText value, (0x20 : UInt8) ≤ c := by
  obtain ⟨-, -, digits⟩ := decimal_value value.toInt.natAbs
  intro c member
  unfold integerText at member
  split at member
  · rcases List.mem_cons.mp member with rfl | later
    · decide
    · exact digit_printable c (digits c later)
  · exact digit_printable c (digits c member)

mutual

/-- A written value has no control byte, hence no line break. -/
theorem dump_printable : ∀ (value : Json), doubleFree value = true → ∀ c ∈ value.dump, (0x20 : UInt8) ≤ c
  | .null, _ => by rw [dump]; decide +kernel
  | .bool true, _ => by rw [dump, if_pos rfl]; decide +kernel
  | .bool false, _ => by rw [dump, if_neg (by decide)]; decide +kernel
  | .int value, _ => by rw [dump]; exact integerText_printable value
  | .double value, plain => by simp [doubleFree] at plain
  | .string value, _ => by rw [dump]; exact dumpString_printable value
  | .array items, plain => by
    intro c member
    rw [dump, List.mem_cons, List.mem_append, List.mem_singleton] at member
    rcases member with rfl | inside | rfl
    · decide
    · exact dumpItems_printable items (by simpa only [doubleFree] using plain) c inside
    · decide
  | .object members, plain => by
    intro c member
    rw [dump, List.mem_cons, List.mem_append, List.mem_singleton] at member
    rcases member with rfl | inside | rfl
    · decide
    · exact dumpMembers_printable members (by simpa only [doubleFree] using plain) c inside
    · decide

theorem dumpItems_printable : ∀ (items : List Json), itemsDoubleFree items = true →
    ∀ c ∈ dumpItems items, (0x20 : UInt8) ≤ c
  | [], _ => by simp [dumpItems]
  | [item], plain => by
    rw [dumpItems]
    exact dump_printable item (by simpa [itemsDoubleFree] using plain)
  | item :: next :: items, plain => by
    rw [itemsDoubleFree, Bool.and_eq_true] at plain
    intro c member
    rw [dumpItems, List.mem_append, List.mem_cons] at member
    · rcases member with first | rfl | later
      · exact dump_printable item plain.1 c first
      · decide
      · exact dumpItems_printable (next :: items) plain.2 c later
    · simp

theorem dumpMembers_printable : ∀ (members : List (Bytes × Json)), membersDoubleFree members = true →
    ∀ c ∈ dumpMembers members, (0x20 : UInt8) ≤ c
  | [], _ => by simp [dumpMembers]
  | [(key, value)], plain => by
    intro c member
    rw [dumpMembers, List.mem_append, List.mem_cons] at member
    rcases member with named | rfl | inside
    · exact dumpString_printable key c named
    · decide
    · exact dump_printable value (by simpa [membersDoubleFree] using plain) c inside
  | (key, value) :: next :: members, plain => by
    rw [membersDoubleFree, Bool.and_eq_true] at plain
    intro c member
    rw [dumpMembers, List.mem_append, List.mem_append, List.mem_cons, List.mem_cons] at member
    · rcases member with (named | rfl | inside) | rfl | later
      · exact dumpString_printable key c named
      · decide
      · exact dump_printable value plain.1 c inside
      · decide
      · exact dumpMembers_printable (next :: members) plain.2 c later
    · simp

end

/-- Every value without doubles is read back from its text, and the text has no
control byte. -/
theorem written_value_reads_back (value : Json) (plain : doubleFree value = true) :
    parse value.dump = .ok value ∧ ∀ c ∈ value.dump, (0x20 : UInt8) ≤ c :=
  ⟨parse_dump value plain, dump_printable value plain⟩

/-- Every kind of value and of byte: a repeated key, quotes, a NUL, a byte above
the ASCII range, the most negative integer, empty containers. -/
def mixedValue : Json :=
  .object [([byte '"', byte '\\', 0, 10, 0xFF], .array [.int (-9223372036854775808), .null, .bool true, .array []]),
    (ascii "k", .string [1, 9, 13, 0x7F, 0xC3]), (ascii "k", .object [])]

theorem mixed_value_reads_back :
    parse mixedValue.dump = .ok mixedValue ∧ ∀ c ∈ mixedValue.dump, (0x20 : UInt8) ≤ c :=
  written_value_reads_back mixedValue (by decide)

end Exchange.JsonRoundTrip
