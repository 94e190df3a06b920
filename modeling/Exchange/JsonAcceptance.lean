import Exchange.JsonGrammar

/-! What the parser accepts. A run that returns has read, behind blanks, one
value of the tolerated language, and for every such value it returns. The rest
of the text is not looked at, so the parser accepts exactly the JSON documents
on the texts that do not hold one of its laxities at their front. -/
namespace Exchange.JsonAcceptance
open Json JsonRoundTrip JsonPrefix JsonGrammar

variable {text rest token : Bytes} {value : Json} {fuel : Nat}

/-! ## Blanks -/

theorem blank_iff (c : UInt8) : c ∈ ascii " \t\n\r" ↔ isWs c = true :=
  forall_byte (P := fun c => c ∈ ascii " \t\n\r" ↔ isWs c = true) (by decide +kernel) c

theorem skipWs_split (text : Bytes) : ∃ blank, Blank blank ∧ text = blank ++ skipWs text :=
  ⟨text.takeWhile isWs, fun c member => (blank_iff c).mpr (List.mem_takeWhile_imp member),
    List.takeWhile_append_dropWhile.symm⟩

theorem skipWs_blank {blank : Bytes} (empty : Blank blank) (text : Bytes) : skipWs (blank ++ text) = skipWs text :=
  List.dropWhile_append_of_pos fun c member => (blank_iff c).mp (empty c member)

@[simp] theorem skipWs_idem (text : Bytes) : skipWs (skipWs text) = skipWs text :=
  List.dropWhile_idempotent _ _

/-! ## Strings -/

theorem unescape_iff (e : UInt8) : e ∈ ascii "\"\\/bfnrt" ↔ (unescape e).isSome = true ∧ e ≠ byte 'u' :=
  forall_byte (P := fun e => e ∈ ascii "\"\\/bfnrt" ↔ (unescape e).isSome = true ∧ e ≠ byte 'u')
    (by decide +kernel) e

/-- What a string reader has read is the inside of a string. -/
theorem parseRawString_sound {out string : Bytes} (read : parseRawString out text = .ok (string, rest)) :
    ∃ body, Chars tolerated body ∧ text = body ++ byte '"' :: rest := by
  induction out, text using parseRawString.induct with
  | case1 out => cases read
  | case2 out after =>
    rw [parseRawString.eq_def] at read
    simp only [↓reduceIte] at read
    cases read
    exact ⟨[], .nil, rfl⟩
  | case3 out quote =>
    rw [parseRawString.eq_def] at read
    simp only [quote, ↓reduceIte, fail, reduceCtorEq] at read
  | case4 out d₁ d₂ d₃ d₄ after quote ih =>
    rw [parseRawString.eq_def] at read
    simp only [quote, ↓reduceIte, bind] at read
    obtain ⟨code, known, read⟩ := Runs.bind_ok_iff.mp read
    obtain ⟨body, chars, rfl⟩ := ih code read
    exact ⟨_, .code ⟨code, known⟩ chars, rfl⟩
  | case5 out after short quote =>
    rw [parseRawString.eq_def] at read
    simp only [quote, ↓reduceIte, fail, reduceCtorEq] at read
  | case6 out e after letter c stands quote ih =>
    rw [parseRawString_letter out after letter stands] at read
    obtain ⟨body, chars, rfl⟩ := ih read
    exact ⟨_, .letter ((unescape_iff e).mpr ⟨by simp [stands], letter⟩) chars, rfl⟩
  | case7 out e after letter unknown quote =>
    rw [parseRawString.eq_def] at read
    simp only [quote, letter, unknown, ↓reduceIte, fail, reduceCtorEq] at read
  | case8 out c after quote backslash ih =>
    rw [parseRawString.eq_def] at read
    simp only [quote, backslash, ↓reduceIte] at read
    obtain ⟨body, chars, rfl⟩ := ih read
    exact ⟨_, .raw quote backslash chars, rfl⟩

theorem parseRawString_complete {body : Bytes} (chars : Chars tolerated body) (out rest : Bytes) :
    ∃ string, parseRawString out (body ++ byte '"' :: rest) = .ok (string, rest) := by
  induction chars generalizing out with
  | nil => exact ⟨out, by rw [List.nil_append, parseRawString.eq_def]; simp⟩
  | @raw c behind plain unescaped chars ih =>
    obtain ⟨string, read⟩ := ih (out ++ [c])
    refine ⟨string, ?_⟩
    rw [List.cons_append, parseRawString.eq_def]
    simpa only [plain, unescaped, ↓reduceIte] using read
  | @letter e behind known chars ih =>
    obtain ⟨stands, letter⟩ := (unescape_iff e).mp known
    obtain ⟨c, stands⟩ := Option.isSome_iff_exists.mp stands
    obtain ⟨string, read⟩ := ih (out ++ [c])
    exact ⟨string, (parseRawString_letter out _ letter stands).trans read⟩
  | @code d₁ d₂ d₃ d₄ behind unit chars ih =>
    obtain ⟨code, known⟩ := unit
    obtain ⟨string, read⟩ := ih (out ++ codeBytes code)
    exact ⟨string, (parseRawString_code out _ known).trans read⟩

/-! ## Literals and numbers -/

theorem takeLiteral_eq {literal : String} (found : takeLiteral literal text = some rest) :
    text = ascii literal ++ rest := by
  unfold takeLiteral at found
  split at found
  · rename_i front
    obtain ⟨after, rfl⟩ := front
    cases found
    have size : literal.length = (ascii literal).length := by
      rw [ascii, List.length_map, String.length_toList]
    rw [size, List.drop_left]
  · cases found

theorem parseBool_sound (read : parseBool text = .ok (value, rest)) :
    text = ascii "true" ++ rest ∨ text = ascii "false" ++ rest := by
  unfold parseBool at read
  cases yes : takeLiteral "true" text with
  | some after =>
    rw [yes] at read
    cases read
    exact Or.inl (takeLiteral_eq yes)
  | none =>
    cases no : takeLiteral "false" text with
    | some after =>
      rw [yes, no] at read
      cases read
      exact Or.inr (takeLiteral_eq no)
    | none =>
      rw [yes, no] at read
      cases read

theorem parseNull_sound (read : parseNull text = .ok (value, rest)) : text = ascii "null" ++ rest := by
  unfold parseNull at read
  cases found : takeLiteral "null" text with
  | some after =>
    rw [found] at read
    cases read
    exact takeLiteral_eq found
  | none =>
    rw [found] at read
    cases read

theorem readsDigits_filled {body : Bytes} (reads : ReadsDigits false body) : body ≠ [] := by
  rintro rfl
  simp [ReadsDigits, stoll] at reads

/-- The digits and marks behind the sign are read as one token. -/
theorem parseDigits_sound {negative : Bool} (read : parseDigits negative text = .ok (value, rest)) :
    ∃ body, text = body ++ rest ∧ ReadsDigits negative body ∧ EndsNumber rest := by
  have front : ∀ c ∈ text.takeWhile isNumberByte, isNumberByte c = true := fun c => List.mem_takeWhile_imp
  have ends : EndsNumber (text.dropWhile isNumberByte) := by
    intro c member
    have stops := List.head?_dropWhile_not isNumberByte text
    rw [Option.mem_def.mp member] at stops
    simpa [isNumberByte] using stops
  have split : splitWhile (fun c => isDigit c || isNumberMark c) text =
      (text.takeWhile isNumberByte, text.dropWhile isNumberByte) := rfl
  unfold parseDigits at read
  rw [split] at read
  simp only [bind] at read
  split at read
  · cases read
  · split at read
    · rename_i marked
      obtain ⟨number, known, done⟩ := Runs.bind_ok_iff.mp read
      cases done
      exact ⟨_, List.takeWhile_append_dropWhile.symm, ⟨front, by rw [if_pos marked]; exact ⟨_, known⟩⟩,
        ends⟩
    · rename_i unmarked
      obtain ⟨number, known, done⟩ := Runs.bind_ok_iff.mp read
      cases done
      exact ⟨_, List.takeWhile_append_dropWhile.symm, ⟨front, by rw [if_neg unmarked]; exact ⟨_, known⟩⟩,
        ends⟩

theorem parseDigits_complete {negative : Bool} {body : Bytes} (reads : ReadsDigits negative body)
    (ends : EndsNumber rest) : ∃ value, parseDigits negative (body ++ rest) = .ok (value, rest) := by
  have split : splitWhile (fun c => isDigit c || isNumberMark c) (body ++ rest) = (body, rest) :=
    splitWhile_append reads.1 fun c member => by simp [ends c member]
  have filled : (!negative && body.isEmpty) = false := by
    cases negative with
    | true => rfl
    | false => simpa using readsDigits_filled reads
  have converts := reads.2
  unfold parseDigits
  simp only [split, filled, Bool.false_eq_true, ↓reduceIte]
  split at converts
  · rename_i marked
    obtain ⟨number, read⟩ := converts
    exact ⟨.double number, by rw [if_pos marked, read]; rfl⟩
  · rename_i unmarked
    obtain ⟨number, read⟩ := converts
    exact ⟨.int number, by rw [if_neg unmarked, read]; rfl⟩

theorem parseNumber_sound (read : parseNumber text = .ok (value, rest)) :
    ∃ token, text = token ++ rest ∧ tolerated.numeral token ∧ EndsNumber rest := by
  cases text with
  | nil => cases read
  | cons c text =>
    rw [parseNumber_cons] at read
    split at read
    · rename_i minus
      obtain ⟨body, rfl, reads, ends⟩ := parseDigits_sound read
      exact ⟨c :: body, rfl, (if_pos minus).mpr reads, ends⟩
    · rename_i plus
      obtain ⟨body, shape, reads, ends⟩ := parseDigits_sound read
      obtain ⟨first, others, rfl⟩ := List.exists_cons_of_ne_nil (readsDigits_filled reads)
      obtain ⟨rfl, -⟩ := List.cons_eq_cons.mp shape
      exact ⟨_, shape, (if_neg plus).mpr reads, ends⟩

theorem parseNumber_complete (numeral : tolerated.numeral token) (ends : EndsNumber rest) :
    ∃ value, parseNumber (token ++ rest) = .ok (value, rest) := by
  cases token with
  | nil => exact numeral.elim
  | cons c body =>
    rw [List.cons_append, parseNumber_cons]
    by_cases minus : c = byte '-'
    · rw [if_pos minus]
      exact parseDigits_complete ((if_pos minus).mp numeral) ends
    · rw [if_neg minus, ← List.cons_append]
      exact parseDigits_complete ((if_neg minus).mp numeral) ends

theorem numeral_head {c : UInt8} {body : Bytes} (numeral : tolerated.numeral (c :: body)) : isNumberByte c = true := by
  by_cases minus : c = byte '-'
  · rw [minus]
    rfl
  · exact ((if_neg minus).mp numeral).1 c (by simp)

/-- A token that begins with another byte is no number. -/
theorem not_numeral {c : UInt8} (other : isNumberByte c = false) {body : Bytes} (ends : Prop) :
    tolerated.numeral (c :: body) → ends := by
  intro numeral
  rw [numeral_head numeral] at other
  cases other

/-! ## What was read is a phrase -/

/-- Behind blanks the text opens with a value of the language; a number among
them ends where it cannot go on. -/
structure Opens (lexicon : Lexicon) (text blank token rest : Bytes) : Prop where
  shape : text = blank ++ (token ++ rest)
  empty : Blank blank
  value : Phrase lexicon .value token
  ends : lexicon.numeral token → EndsNumber rest

theorem parseValue_skip (fuel : Nat) (text : Bytes) : parseValue fuel (skipWs text) = parseValue fuel text := by
  cases fuel with
  | zero => rfl
  | succ fuel => rw [parseValue, parseValue, skipWs_idem]

theorem parseItems_skip (fuel : Nat) (items : List Json) (text : Bytes) :
    parseItems fuel items (skipWs text) = parseItems fuel items text := by
  cases fuel with
  | zero => rfl
  | succ fuel => rw [parseItems, parseItems, parseValue_skip]

theorem parseMembers_skip (fuel : Nat) (members : List (Bytes × Json)) (text : Bytes) :
    parseMembers fuel members (skipWs text) = parseMembers fuel members text := by
  cases fuel with
  | zero => rfl
  | succ fuel => rw [parseMembers, parseMembers, skipWs_idem]

/-- All three loops read phrases. -/
structure ParserSound (fuel : Nat) : Prop where
  value : ∀ text value rest, parseValue fuel text = .ok (value, rest) →
    ∃ blank token, Opens tolerated text blank token rest
  members : ∀ members text value rest, parseMembers fuel members text = .ok (value, rest) →
    ∃ entries, Phrase tolerated .members entries ∧ text = entries ++ byte '\x7d' :: rest
  items : ∀ items text value rest, parseItems fuel items text = .ok (value, rest) →
    ∃ elements, Phrase tolerated .elements elements ∧ text = elements ++ byte ']' :: rest

/-- Behind a bracket that opens: blanks and the one that closes, or a loop's phrase. -/
theorem opened_sound {close : UInt8} {empty : Json} {kind : Nonterminal}
    {loop : Bytes → Except JsonError (Json × Bytes)}
    (skips : ∀ text, loop (skipWs text) = loop text)
    (sound : ∀ text value rest, loop text = .ok (value, rest) →
      ∃ inside, Phrase tolerated kind inside ∧ text = inside ++ close :: rest)
    (read : (match skipWs text with
        | [] => fail "unexpected end"
        | d :: after => if d = close then .ok (empty, after) else loop (d :: after)) = .ok (value, rest)) :
    ∃ inside, (Blank inside ∨ Phrase tolerated kind inside) ∧ text = inside ++ close :: rest := by
  obtain ⟨blank, front, shape⟩ := skipWs_split text
  cases found : skipWs text with
  | nil =>
    simp only [found] at read
    cases read
  | cons d after =>
    simp only [found] at read
    split at read
    · rename_i closed
      cases read
      rw [found, closed] at shape
      exact ⟨blank, Or.inl front, shape⟩
    · rw [← found, skips] at read
      obtain ⟨inside, phrase, shape⟩ := sound text value rest read
      exact ⟨inside, Or.inr phrase, shape⟩

/-- Behind an element: blanks, then a comma and the loop's phrase, or the closing bracket. -/
theorem separated_sound {close : UInt8} {done : Json} {message : String} {kind : Nonterminal}
    {loop : Bytes → Except JsonError (Json × Bytes)}
    (sound : ∀ text value rest, loop text = .ok (value, rest) →
      ∃ inside, Phrase tolerated kind inside ∧ text = inside ++ close :: rest)
    (read : (match skipWs text with
        | [] => fail "unexpected end"
        | c :: rest =>
          if c = byte ',' then loop rest else if c = close then .ok (done, rest) else fail message) =
      .ok (value, rest)) :
    ∃ blank, Blank blank ∧ (text = blank ++ close :: rest ∨
      ∃ inside, Phrase tolerated kind inside ∧ text = blank ++ byte ',' :: (inside ++ close :: rest)) := by
  obtain ⟨blank, front, shape⟩ := skipWs_split text
  refine ⟨blank, front, ?_⟩
  cases found : skipWs text with
  | nil =>
    simp only [found] at read
    cases read
  | cons c after =>
    simp only [found] at read
    rw [found] at shape
    split at read
    · rename_i comma
      obtain ⟨inside, phrase, rfl⟩ := sound after value rest read
      exact Or.inr ⟨inside, phrase, by rw [shape, comma]⟩
    · split at read
      · rename_i closed
        cases read
        exact Or.inl (by rw [shape, closed])
      · cases read

theorem parseValue_sound_step (sound : ParserSound fuel) (read : parseValue (fuel + 1) text = .ok (value, rest)) :
    ∃ blank token, Opens tolerated text blank token rest := by
  obtain ⟨blank, front, shape⟩ := skipWs_split text
  refine ⟨blank, ?_⟩
  rw [parseValue] at read
  cases found : skipWs text with
  | nil =>
    rw [found] at read
    cases read
  | cons c after =>
    rw [found] at read shape
    simp only at read
    split at read
    · rename_i object
      obtain ⟨inside, kind, rfl⟩ := opened_sound (parseMembers_skip fuel []) (sound.members []) read
      refine ⟨c :: (inside ++ [byte '\x7d']), ⟨by simp [shape], front, ?_, not_numeral (by rw [object]; rfl) _⟩⟩
      rw [object]
      exact kind.elim .emptyObject .object
    split at read
    · rename_i array
      obtain ⟨inside, kind, rfl⟩ := opened_sound (parseItems_skip fuel []) (sound.items []) read
      refine ⟨c :: (inside ++ [byte ']']), ⟨by simp [shape], front, ?_, not_numeral (by rw [array]; rfl) _⟩⟩
      rw [array]
      exact kind.elim .emptyArray .array
    split at read
    · rename_i quote
      obtain ⟨⟨string, left⟩, known, done⟩ := Runs.bind_ok_iff.mp read
      cases done
      obtain ⟨body, chars, rfl⟩ := parseRawString_sound known
      refine ⟨quoted body, ⟨by simp [shape, quote, quoted], front, .string chars, not_numeral rfl _⟩⟩
    split at read
    · rcases parseBool_sound read with same | same
      · exact ⟨ascii "true", ⟨by rw [shape, same], front, .true_, not_numeral rfl _⟩⟩
      · exact ⟨ascii "false", ⟨by rw [shape, same], front, .false_, not_numeral rfl _⟩⟩
    split at read
    · exact ⟨ascii "null", ⟨by rw [shape, parseNull_sound read], front, .null, not_numeral rfl _⟩⟩
    · obtain ⟨token, same, numeral, ends⟩ := parseNumber_sound read
      exact ⟨token, ⟨by rw [shape, same], front, .number numeral, fun _ => ends⟩⟩

theorem parseMembers_sound_step (sound : ParserSound fuel) {members : List (Bytes × Json)}
    (read : parseMembers (fuel + 1) members text = .ok (value, rest)) :
    ∃ entries, Phrase tolerated .members entries ∧ text = entries ++ byte '\x7d' :: rest := by
  obtain ⟨before, front, shape⟩ := skipWs_split text
  rw [parseMembers] at read
  cases found : skipWs text with
  | nil =>
    rw [found] at read
    cases read
  | cons c after =>
    rw [found] at read shape
    simp only at read
    split at read
    · cases read
    rename_i quote
    obtain ⟨⟨key, left⟩, known, behindKey⟩ := Runs.bind_ok_iff.mp read
    obtain ⟨body, chars, rfl⟩ := parseRawString_sound known
    obtain ⟨middle, back, shape'⟩ := skipWs_split left
    simp only at behindKey
    cases colon : skipWs left with
    | nil =>
      rw [colon] at behindKey
      cases behindKey
    | cons d item =>
      rw [colon] at behindKey shape'
      simp only at behindKey
      split at behindKey
      · cases behindKey
      rename_i separated
      obtain ⟨⟨member, behind⟩, inside, ending⟩ := Runs.bind_ok_iff.mp behindKey
      obtain ⟨blank, token, opens⟩ := sound.value item member behind inside
      simp only at ending
      obtain ⟨after', empty, ended⟩ := separated_sound (sound.members _) ending
      have entry : Phrase tolerated .member
          (before ++ (quoted body ++ (middle ++ byte ':' :: (blank ++ (token ++ after'))))) :=
        .member front chars back (.element opens.empty opens.value empty)
      rw [not_not.mp quote] at shape
      rw [not_not.mp separated] at shape'
      rcases ended with closed | ⟨entries, phrase, more⟩
      · refine ⟨_, .lastMember entry, ?_⟩
        rw [shape, shape', opens.shape, closed]
        simp [quoted]
      · refine ⟨_, .moreMembers entry phrase, ?_⟩
        rw [shape, shape', opens.shape, more]
        simp [quoted]

theorem parseItems_sound_step (sound : ParserSound fuel) {items : List Json}
    (read : parseItems (fuel + 1) items text = .ok (value, rest)) :
    ∃ elements, Phrase tolerated .elements elements ∧ text = elements ++ byte ']' :: rest := by
  rw [parseItems] at read
  obtain ⟨⟨item, behind⟩, inside, read⟩ := Runs.bind_ok_iff.mp read
  obtain ⟨blank, token, opens⟩ := sound.value text item behind inside
  simp only at read
  obtain ⟨after, empty, ended⟩ := separated_sound (sound.items _) read
  have element : Phrase tolerated .element (blank ++ (token ++ after)) := .element opens.empty opens.value empty
  rcases ended with closed | ⟨elements, phrase, more⟩
  · refine ⟨_, .last element, ?_⟩
    rw [opens.shape, closed]
    simp
  · refine ⟨_, .more element phrase, ?_⟩
    rw [opens.shape, more]
    simp

theorem parser_sound (fuel : Nat) : ParserSound fuel := by
  induction fuel with
  | zero =>
    constructor
    · intro text value rest read
      cases read
    · intro members text value rest read
      cases read
    · intro items text value rest read
      cases read
  | succ fuel sound =>
    exact ⟨fun _ _ _ => parseValue_sound_step sound, fun _ _ _ _ => parseMembers_sound_step sound,
      fun _ _ _ _ => parseItems_sound_step sound⟩

/-! ## Every phrase is read -/

theorem numberByte_plain (c : UInt8) : isNumberByte c = true →
    isWs c = false ∧ c ≠ byte '\x7b' ∧ c ≠ byte '[' ∧
    c ≠ byte '"' ∧ c ≠ byte 't' ∧ c ≠ byte 'f' ∧ c ≠ byte 'n' :=
  forall_byte (P := fun c => isNumberByte c = true → isWs c = false ∧ c ≠ byte '\x7b' ∧ c ≠ byte '[' ∧
    c ≠ byte '"' ∧ c ≠ byte 't' ∧ c ≠ byte 'f' ∧ c ≠ byte 'n') (by decide +kernel) c

theorem parseValue_number (numeral : tolerated.numeral token) (ends : EndsNumber rest) :
    ∃ value, parseValue (fuel + 1) (token ++ rest) = .ok (value, rest) := by
  obtain ⟨value, read⟩ := parseNumber_complete numeral ends
  cases token with
  | nil => exact numeral.elim
  | cons c body =>
    obtain ⟨solid, brace, bracket, quote, true_, false_, null⟩ := numberByte_plain c (numeral_head numeral)
    refine ⟨value, ?_⟩
    rw [List.cons_append] at read ⊢
    rw [parseValue, skipWs_cons solid]
    simpa only [brace, bracket, quote, true_, false_, null, or_self, ↓reduceIte] using read

theorem parseValue_string {body : Bytes} (chars : Chars tolerated body) (rest : Bytes) :
    ∃ value, parseValue (fuel + 1) (quoted body ++ rest) = .ok (value, rest) := by
  obtain ⟨string, read⟩ := parseRawString_complete chars [] rest
  refine ⟨.string string, ?_⟩
  rw [quoted, List.cons_append, List.append_assoc]
  show (parseRawString [] _).bind _ = _
  rw [List.singleton_append, read]
  rfl

/-- Where the loop over the elements succeeds, the array is not closed at once. -/
theorem items_open {items : List Json} (read : parseItems fuel items text = .ok (value, rest)) :
    ∃ d after, skipWs text = d :: after ∧ d ≠ byte ']' := by
  cases fuel with
  | zero => cases read
  | succ fuel =>
    rw [parseItems] at read
    obtain ⟨front, inside, -⟩ := Runs.bind_ok_iff.mp read
    cases fuel with
    | zero => cases inside
    | succ fuel =>
      rw [parseValue] at inside
      cases found : skipWs text with
      | nil =>
        rw [found] at inside
        cases inside
      | cons d after =>
        refine ⟨d, after, rfl, ?_⟩
        rintro rfl
        rw [found] at inside
        cases inside

theorem members_open {members : List (Bytes × Json)} (read : parseMembers fuel members text = .ok (value, rest)) :
    ∃ d after, skipWs text = d :: after ∧ d ≠ byte '\x7d' := by
  cases fuel with
  | zero => cases read
  | succ fuel =>
    rw [parseMembers] at read
    cases found : skipWs text with
    | nil =>
      rw [found] at read
      cases read
    | cons d after =>
      refine ⟨d, after, rfl, ?_⟩
      rintro rfl
      rw [found] at read
      cases read

/-- What follows an entry in either loop. -/
def separated (close : UInt8) (message : String) (loop : Bytes → Except JsonError (Json × Bytes)) (done : Json)
    (text : Bytes) : Except JsonError (Json × Bytes) :=
  match skipWs text with
  | [] => fail "unexpected end"
  | c :: rest => if c = byte ',' then loop rest else if c = close then .ok (done, rest) else fail message

/-- The part of a pass of `parse_object`'s loop behind the member. -/
def behindMember (fuel : Nat) (members : List (Bytes × Json)) : Bytes → Except JsonError (Json × Bytes) :=
  separated (byte '\x7d') "expected ',' or '\x7d'" (parseMembers fuel members) (.object members)

/-- What the parser does on the texts of a nonterminal. -/
def Reads : Nonterminal → Bytes → Prop
  | .value, text => ∀ fuel rest, text.length < fuel → (tolerated.numeral text → EndsNumber rest) →
      ∃ value, parseValue fuel (text ++ rest) = .ok (value, rest)
  | .element, text => ∀ fuel rest, text.length < fuel → EndsNumber rest →
      ∃ value left, parseValue fuel (text ++ rest) = .ok (value, left) ∧ skipWs left = skipWs rest
  | .elements, text => ∀ fuel items rest, text.length + 1 < fuel →
      ∃ value, parseItems fuel items (text ++ byte ']' :: rest) = .ok (value, rest)
  | .member, text => ∀ fuel members rest, text.length < fuel → EndsNumber rest →
      ∃ member left, parseMembers (fuel + 1) members (text ++ rest) =
        behindMember fuel (members ++ [member]) left ∧ skipWs left = skipWs rest
  | .members, text => ∀ fuel members rest, text.length + 1 < fuel →
      ∃ value, parseMembers fuel members (text ++ byte '\x7d' :: rest) = .ok (value, rest)

theorem endsNumber_blank {blank : Bytes} (empty : Blank blank) (ends : EndsNumber rest) :
    EndsNumber (blank ++ rest) := by
  cases blank with
  | nil => exact ends
  | cons c blank =>
    have white := (blank_iff c).mp (empty c (by simp))
    have other : isNumberByte c = false := by
      by_contra number
      rw [(numberByte_plain c (by simpa using number)).1] at white
      cases white
    simp only [isNumberByte, Bool.or_eq_false_iff] at other
    exact endsNumber_cons other.1 other.2 _

theorem parseMembers_member {before key after item : Bytes} (front : Blank before) (chars : Chars tolerated key)
    (back : Blank after) {left : Bytes} (read : parseValue fuel item = .ok (value, left))
    (members : List (Bytes × Json)) :
    ∃ name, parseMembers (fuel + 1) members (before ++ (quoted key ++ (after ++ byte ':' :: item))) =
      behindMember fuel (members ++ [(name, value)]) left := by
  obtain ⟨name, named⟩ := parseRawString_complete chars [] (after ++ byte ':' :: item)
  refine ⟨name, ?_⟩
  have quote : skipWs (byte '"' :: (key ++ byte '"' :: (after ++ byte ':' :: item))) =
      byte '"' :: (key ++ byte '"' :: (after ++ byte ':' :: item)) := skipWs_cons rfl _
  have colon : skipWs (after ++ byte ':' :: item) = byte ':' :: item := by
    rw [skipWs_blank back]
    exact skipWs_cons rfl _
  rw [← parseMembers_skip, skipWs_blank front, quoted, List.cons_append, List.append_assoc,
    List.singleton_append, parseMembers_skip, parseMembers, quote]
  simp only [ne_eq, not_true_eq_false, ↓reduceIte, named, bind, Except.bind, colon, read]
  rfl

/-- Every phrase of the tolerated language is read. -/
theorem phrase_reads {kind : Nonterminal} {text : Bytes} (phrase : Phrase tolerated kind text) : Reads kind text := by
  induction phrase with
  | null =>
    intro fuel rest enough _
    obtain ⟨fuel, rfl⟩ := Nat.exists_eq_add_one.mpr (Nat.zero_lt_of_lt enough)
    exact ⟨_, parseNull_null rest⟩
  | true_ =>
    intro fuel rest enough _
    obtain ⟨fuel, rfl⟩ := Nat.exists_eq_add_one.mpr (Nat.zero_lt_of_lt enough)
    exact ⟨_, parseBool_true rest⟩
  | false_ =>
    intro fuel rest enough _
    obtain ⟨fuel, rfl⟩ := Nat.exists_eq_add_one.mpr (Nat.zero_lt_of_lt enough)
    exact ⟨_, parseBool_false rest⟩
  | number numeral =>
    intro fuel rest enough ends
    obtain ⟨fuel, rfl⟩ := Nat.exists_eq_add_one.mpr (Nat.zero_lt_of_lt enough)
    exact parseValue_number numeral (ends numeral)
  | string chars =>
    intro fuel rest enough _
    obtain ⟨fuel, rfl⟩ := Nat.exists_eq_add_one.mpr (Nat.zero_lt_of_lt enough)
    exact parseValue_string chars rest
  | emptyArray empty =>
    intro fuel rest enough _
    obtain ⟨fuel, rfl⟩ := Nat.exists_eq_add_one.mpr (Nat.zero_lt_of_lt enough)
    have closed : skipWs (byte ']' :: rest) = byte ']' :: rest := skipWs_cons rfl rest
    refine ⟨.array [], ?_⟩
    rw [List.cons_append, List.append_assoc, parseValue_array, skipWs_blank empty, List.singleton_append, closed]
    rfl
  | @array items inside ih =>
    intro fuel rest enough _
    obtain ⟨fuel, rfl⟩ := Nat.exists_eq_add_one.mpr (Nat.zero_lt_of_lt enough)
    simp only [List.length_cons, List.length_append, List.length_nil] at enough
    obtain ⟨value, read⟩ := ih fuel [] rest (by omega)
    obtain ⟨d, after, found, more⟩ := items_open read
    refine ⟨value, ?_⟩
    rw [List.cons_append, List.append_assoc, parseValue_array, List.singleton_append, found]
    simp only [more, ↓reduceIte]
    rwa [← found, parseItems_skip]
  | emptyObject empty =>
    intro fuel rest enough _
    obtain ⟨fuel, rfl⟩ := Nat.exists_eq_add_one.mpr (Nat.zero_lt_of_lt enough)
    have closed : skipWs (byte '\x7d' :: rest) = byte '\x7d' :: rest := skipWs_cons rfl rest
    refine ⟨.object [], ?_⟩
    rw [List.cons_append, List.append_assoc, parseValue_object, skipWs_blank empty, List.singleton_append, closed]
    rfl
  | @object entries inside ih =>
    intro fuel rest enough _
    obtain ⟨fuel, rfl⟩ := Nat.exists_eq_add_one.mpr (Nat.zero_lt_of_lt enough)
    simp only [List.length_cons, List.length_append, List.length_nil] at enough
    obtain ⟨value, read⟩ := ih fuel [] rest (by omega)
    obtain ⟨d, after, found, more⟩ := members_open read
    refine ⟨value, ?_⟩
    rw [List.cons_append, List.append_assoc, parseValue_object, List.singleton_append, found]
    simp only [more, ↓reduceIte]
    rwa [← found, parseMembers_skip]
  | @element before token after front inside back ih =>
    intro fuel rest enough ends
    simp only [List.length_append] at enough
    obtain ⟨value, read⟩ := ih fuel (after ++ rest) (by omega) fun _ => endsNumber_blank back ends
    refine ⟨value, after ++ rest, ?_, skipWs_blank back rest⟩
    rw [← parseValue_skip, List.append_assoc, skipWs_blank front, parseValue_skip, List.append_assoc]
    exact read
  | last inside ih =>
    intro fuel items rest enough
    obtain ⟨fuel, rfl⟩ := Nat.exists_eq_add_one.mpr (Nat.zero_lt_of_lt enough)
    obtain ⟨item, left, read, same⟩ := ih fuel (byte ']' :: rest) (by omega) (endsNumber_separator rest).2.1
    have closed : skipWs (byte ']' :: rest) = byte ']' :: rest := skipWs_cons rfl rest
    refine ⟨.array (items ++ [item]), ?_⟩
    rw [parseItems, read]
    simp only [bind, Except.bind, same, closed]
    rfl
  | @more item items inside others ih ihOthers =>
    intro fuel read_ rest enough
    obtain ⟨fuel, rfl⟩ := Nat.exists_eq_add_one.mpr (Nat.zero_lt_of_lt enough)
    simp only [List.length_append, List.length_cons] at enough
    obtain ⟨value, left, read, same⟩ := ih fuel (byte ',' :: (items ++ byte ']' :: rest)) (by omega)
      (endsNumber_separator _).1
    obtain ⟨array, onward⟩ := ihOthers fuel (read_ ++ [value]) rest (by omega)
    have comma : skipWs (byte ',' :: (items ++ byte ']' :: rest)) = byte ',' :: (items ++ byte ']' :: rest) :=
      skipWs_cons rfl _
    refine ⟨array, ?_⟩
    rw [List.append_assoc, List.cons_append, parseItems, read]
    simp only [bind, Except.bind, same, comma, ↓reduceIte]
    exact onward
  | @member before key after item front chars back inside ih =>
    intro fuel members rest enough ends
    simp only [List.length_append, List.length_cons] at enough
    obtain ⟨value, left, read, same⟩ := ih fuel rest (by omega) ends
    obtain ⟨name, named⟩ := parseMembers_member front chars back read members
    refine ⟨(name, value), left, ?_, same⟩
    simpa only [List.append_assoc, List.cons_append] using named
  | lastMember inside ih =>
    intro fuel members rest enough
    obtain ⟨fuel, rfl⟩ := Nat.exists_eq_add_one.mpr (Nat.zero_lt_of_lt enough)
    obtain ⟨member, left, read, same⟩ := ih fuel members (byte '\x7d' :: rest) (by omega)
      (endsNumber_separator rest).2.2
    have closed : skipWs (byte '\x7d' :: rest) = byte '\x7d' :: rest := skipWs_cons rfl rest
    refine ⟨.object (members ++ [member]), ?_⟩
    rw [read, behindMember, separated, same, closed]
    rfl
  | @moreMembers entry entries inside others ih ihOthers =>
    intro fuel members rest enough
    obtain ⟨fuel, rfl⟩ := Nat.exists_eq_add_one.mpr (Nat.zero_lt_of_lt enough)
    simp only [List.length_append, List.length_cons] at enough
    obtain ⟨member, left, read, same⟩ := ih fuel members (byte ',' :: (entries ++ byte '\x7d' :: rest)) (by omega)
      (endsNumber_separator _).1
    obtain ⟨object, onward⟩ := ihOthers fuel (members ++ [member]) rest (by omega)
    have comma : skipWs (byte ',' :: (entries ++ byte '\x7d' :: rest)) =
      byte ',' :: (entries ++ byte '\x7d' :: rest) := skipWs_cons rfl _
    refine ⟨object, ?_⟩
    rw [List.append_assoc, List.cons_append, read, behindMember, separated, same, comma]
    exact onward

/-! ## Documents -/

theorem opens_parsed {blank : Bytes} (opens : Opens tolerated text blank token rest) (enough : token.length < fuel) :
    ∃ value, parseValue fuel text = .ok (value, rest) := by
  obtain ⟨value, read⟩ := phrase_reads opens.value fuel rest enough opens.ends
  refine ⟨value, ?_⟩
  rw [opens.shape, ← parseValue_skip, skipWs_blank opens.empty, parseValue_skip]
  exact read

/-- A text is accepted when it opens with a value of the tolerated language. -/
theorem parse_iff (text : Bytes) :
    (∃ value, parse text = .ok value) ↔ ∃ blank token rest, Opens tolerated text blank token rest := by
  constructor
  · rintro ⟨value, read⟩
    obtain ⟨⟨front, rest⟩, known, -⟩ := Runs.bind_ok_iff.mp read
    obtain ⟨blank, token, opens⟩ := (parser_sound _).value _ _ _ known
    exact ⟨blank, token, rest, opens⟩
  · rintro ⟨blank, token, rest, opens⟩
    have enough : token.length < 2 * text.length + 1 := by
      rw [opens.shape, List.length_append, List.length_append]
      omega
    obtain ⟨value, read⟩ := opens_parsed opens enough
    exact ⟨value, by rw [parse, read]; rfl⟩

theorem value_head (phrase : Phrase tolerated .value token) : ∃ c body, token = c :: body ∧ isWs c = false := by
  cases phrase with
  | null => exact ⟨_, _, rfl, rfl⟩
  | true_ => exact ⟨_, _, rfl, rfl⟩
  | false_ => exact ⟨_, _, rfl, rfl⟩
  | number numeral =>
    cases token with
    | nil => exact numeral.elim
    | cons c body => exact ⟨c, body, rfl, (numberByte_plain c (numeral_head numeral)).1⟩
  | string => exact ⟨_, _, rfl, rfl⟩
  | emptyArray => exact ⟨_, _, rfl, rfl⟩
  | array => exact ⟨_, _, rfl, rfl⟩
  | emptyObject => exact ⟨_, _, rfl, rfl⟩
  | object => exact ⟨_, _, rfl, rfl⟩

theorem opens_skipWs {blank : Bytes} (opens : Opens tolerated text blank token rest) : skipWs text = token ++ rest := by
  obtain ⟨c, body, rfl, solid⟩ := value_head opens.value
  rw [opens.shape, skipWs_blank opens.empty, List.cons_append, skipWs_cons solid]

/-- It opens so in one way: the parser reads one value and leaves one rest. -/
theorem opens_unique {blank blank' token' rest' : Bytes} (first : Opens tolerated text blank token rest)
    (second : Opens tolerated text blank' token' rest') : token = token' ∧ rest = rest' := by
  obtain ⟨value, read⟩ := opens_parsed first (Nat.lt_succ_of_le (Nat.le_max_left token.length token'.length))
  obtain ⟨value', read'⟩ := opens_parsed second (Nat.lt_succ_of_le (Nat.le_max_right token.length token'.length))
  have same : rest = rest' := by
    rw [read] at read'
    exact congrArg Prod.snd (Except.ok.inj read')
  have whole := (opens_skipWs first).symm.trans (opens_skipWs second)
  rw [same] at whole
  exact ⟨List.append_cancel_right whole, same⟩

/-- The text is one value of the standard grammar between blanks. -/
def Document (text : Bytes) : Prop := Phrase standard .element text

/-- The text opens with a value the parser tolerates, and either that value is
not a standard one (a number with a leading zero, with signs inside or with
nothing before or behind its point or mark, or a `\u` that fewer than four
hexadecimal digits follow) or something other than blanks comes behind it. -/
def Flawed (text : Bytes) : Prop :=
  ∃ blank token rest, Opens tolerated text blank token rest ∧ ¬ (Phrase standard .value token ∧ Blank rest)

theorem document_opens (document : Document text) :
    ∃ blank token rest, Opens tolerated text blank token rest ∧ Phrase standard .value token ∧ Blank rest := by
  cases document with
  | @element before token after front inside back =>
    refine ⟨before, token, after, ⟨rfl, front, phrase_tolerated inside, fun _ => ?_⟩, inside, back⟩
    have ends : EndsNumber [] := by
      intro c member
      cases member
    simpa using endsNumber_blank back ends

/-- On a text without a flaw, and on no other, the parser accepts exactly when
the text is a document. -/
theorem accepts_documents_iff (text : Bytes) :
    ((∃ value, parse text = .ok value) ↔ Document text) ↔ ¬ Flawed text := by
  constructor
  · rintro exact_ ⟨blank, token, rest, opens, odd⟩
    obtain ⟨blank', token', rest', opens', phrase, empty⟩ :=
      document_opens (exact_.mp ((parse_iff text).mpr ⟨blank, token, rest, opens⟩))
    obtain ⟨rfl, rfl⟩ := opens_unique opens opens'
    exact odd ⟨phrase, empty⟩
  · intro sound
    rw [parse_iff]
    constructor
    · rintro ⟨blank, token, rest, opens⟩
      obtain ⟨phrase, empty⟩ : Phrase standard .value token ∧ Blank rest := by
        by_contra odd
        exact sound ⟨blank, token, rest, opens, odd⟩
      rw [opens.shape]
      exact .element opens.empty phrase empty
    · intro document
      obtain ⟨blank, token, rest, opens, -⟩ := document_opens document
      exact ⟨blank, token, rest, opens⟩

/-- Whatever follows the first value is accepted with it. -/
theorem trailing_text_accepted : ¬ ∀ text, (∃ value, parse text = .ok value) ↔ Document text := by
  intro exact_
  have accepted : ∃ value, parse (ascii "1 x") = .ok value := ⟨.int 1, rfl⟩
  obtain ⟨_, _, rest, opens, -, empty⟩ := document_opens ((exact_ _).mp accepted)
  have read : parseValue 2 (ascii "1 x") = .ok (.int 1, ascii " x") := rfl
  obtain ⟨_, _, opens'⟩ := (parser_sound 2).value _ _ _ read
  have left : rest = ascii " x" := (opens_unique opens opens').2
  rw [left] at empty
  exact absurd (empty (byte 'x') (by decide)) (by decide)

end Exchange.JsonAcceptance
