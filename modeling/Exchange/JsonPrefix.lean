import Exchange.JsonRoundTrip
import Exchange.Runs

/-! The parser reads on from the front: what it makes of a text, it makes of
the text with more after it, unless a number ends with the text. So no front of
a written object or array can be taken for a value. -/
namespace Exchange.JsonPrefix
open Json JsonRoundTrip

variable {α : Type} {fuel fuel' : Nat} {text rest extra : Bytes} {value : Json}

/-- Whatever the first reader reads, the second reads the same with more after it. -/
def Keeps (first second : Bytes → Except JsonError (α × Bytes)) : Prop :=
  ∀ text value rest, first text = .ok (value, rest) →
    ∀ extra, second (text ++ extra) = .ok (value, rest ++ extra)

/-- The same, where the first reader leaves something. -/
def KeepsInside (first second : Bytes → Except JsonError (α × Bytes)) : Prop :=
  ∀ text value rest, first text = .ok (value, rest) → rest ≠ [] →
    ∀ extra, second (text ++ extra) = .ok (value, rest ++ extra)

/-! ## Tokens -/

theorem skipWs_append {c : UInt8} (shape : skipWs text = c :: rest) (extra : Bytes) :
    skipWs (text ++ extra) = c :: (rest ++ extra) := by
  unfold skipWs at shape ⊢
  rw [List.dropWhile_append, shape]
  rfl

/-- A string ends at its own quote. -/
theorem parseRawString_keeps (out : Bytes) : Keeps (parseRawString out) (parseRawString out) := by
  intro text value rest read extra
  induction out, text using parseRawString.induct with
  | case1 out => cases read
  | case2 out after =>
    rw [parseRawString.eq_def] at read ⊢
    simp only [↓reduceIte, List.cons_append] at read ⊢
    cases read
    rfl
  | case3 out quote =>
    rw [parseRawString.eq_def] at read
    simp only [quote, ↓reduceIte, fail, reduceCtorEq] at read
  | case4 out d₁ d₂ d₃ d₄ after quote ih =>
    rw [parseRawString.eq_def] at read
    simp only [quote, ↓reduceIte, bind] at read
    obtain ⟨code, known, read⟩ := Runs.bind_ok_iff.mp read
    exact (parseRawString_code out (after ++ extra) known).trans (ih code read)
  | case5 out after short quote =>
    rw [parseRawString.eq_def] at read
    simp only [quote, ↓reduceIte, fail, reduceCtorEq] at read
  | case6 out e after letter c stands quote ih =>
    rw [parseRawString_letter out after letter stands] at read
    exact (parseRawString_letter out (after ++ extra) letter stands).trans (ih read)
  | case7 out e after letter unknown quote =>
    rw [parseRawString.eq_def] at read
    simp only [quote, letter, unknown, ↓reduceIte, fail, reduceCtorEq] at read
  | case8 out c after quote backslash ih =>
    rw [parseRawString.eq_def] at read ⊢
    simp only [quote, backslash, ↓reduceIte, List.cons_append] at read ⊢
    exact ih read

theorem takeLiteral_keeps {literal : String} (found : takeLiteral literal text = some rest) (extra : Bytes) :
    takeLiteral literal (text ++ extra) = some (rest ++ extra) := by
  unfold takeLiteral at found ⊢
  split at found
  · rename_i front
    cases found
    have size : literal.length ≤ text.length := by
      have long := front.length_le
      rwa [ascii, List.length_map, String.length_toList] at long
    rw [if_pos (front.trans (List.prefix_append text extra)), List.drop_append_of_le_length size]
  · cases found

theorem takeLiteral_false (found : takeLiteral "false" text = some rest) (extra : Bytes) :
    takeLiteral "true" (text ++ extra) = none := by
  unfold takeLiteral at found ⊢
  split at found
  · rename_i front
    obtain ⟨after, rfl⟩ := front
    rw [List.append_assoc, if_neg]
    exact fun front => absurd (List.cons_prefix_cons.mp front).1 (by decide)
  · cases found

theorem parseBool_keeps : Keeps parseBool parseBool := by
  intro text value rest read extra
  unfold parseBool at read ⊢
  cases yes : takeLiteral "true" text with
  | some after =>
    rw [yes] at read
    cases read
    rw [takeLiteral_keeps yes]
  | none =>
    cases no : takeLiteral "false" text with
    | some after =>
      rw [yes, no] at read
      cases read
      rw [takeLiteral_false no, takeLiteral_keeps no]
    | none =>
      rw [yes, no] at read
      cases read

theorem parseNull_keeps : Keeps parseNull parseNull := by
  intro text value rest read extra
  unfold parseNull at read ⊢
  cases found : takeLiteral "null" text with
  | some after =>
    rw [found] at read
    cases read
    rw [takeLiteral_keeps found]
  | none =>
    rw [found] at read
    cases read

theorem splitWhile_keeps {keep : UInt8 → Bool} {token : Bytes} (split : splitWhile keep text = (token, rest))
    (filled : rest ≠ []) (extra : Bytes) : splitWhile keep (text ++ extra) = (token, rest ++ extra) := by
  obtain ⟨c, after, rfl⟩ := List.exists_cons_of_ne_nil filled
  have token_ : text.takeWhile keep = token := congrArg Prod.fst split
  have after_ : text.dropWhile keep = c :: after := congrArg Prod.snd split
  have whole : text = token ++ c :: after := by
    rw [← token_, ← after_, List.takeWhile_append_dropWhile]
  rw [whole, List.append_assoc]
  refine splitWhile_append (fun d member => ?_) fun d member => ?_
  · rw [← token_] at member
    exact List.mem_takeWhile_imp member
  · have stops := List.head?_dropWhile_not keep text
    rw [after_] at stops
    cases member
    simpa using stops

/-- `parse_number` behind the sign. -/
def parseDigits (negative : Bool) (body : Bytes) : Except JsonError (Json × Bytes) :=
  let (token, rest) := splitWhile (fun c => isDigit c || isNumberMark c) body
  if !negative && token.isEmpty then fail "invalid number"
  else if token.any isNumberMark then do
    let value ← stod (if negative then byte '-' :: token else token)
    .ok (.double value, rest)
  else do
    let value ← stoll negative token
    .ok (.int value, rest)

theorem parseNumber_cons (c : UInt8) (text : Bytes) :
    parseNumber (c :: text) = if c = byte '-' then parseDigits true text else parseDigits false (c :: text) := by
  unfold parseNumber parseDigits
  by_cases minus : c = byte '-' <;> simp [minus]

theorem parseDigits_keeps (negative : Bool) : KeepsInside (parseDigits negative) (parseDigits negative) := by
  intro text value rest read filled extra
  unfold parseDigits at read ⊢
  cases split : splitWhile (fun c => isDigit c || isNumberMark c) text with
  | mk token left =>
    rw [split] at read
    simp only [bind] at read
    split at read
    · cases read
    · rename_i valid
      split at read
      · rename_i marked
        obtain ⟨number, known, done⟩ := Runs.bind_ok_iff.mp read
        cases done
        simp only [splitWhile_keeps split filled extra, valid, marked, known, Bool.false_eq_true, ↓reduceIte, bind,
          Except.bind]
      · rename_i unmarked
        obtain ⟨number, known, done⟩ := Runs.bind_ok_iff.mp read
        cases done
        simp only [splitWhile_keeps split filled extra, valid, unmarked, known, Bool.false_eq_true, ↓reduceIte, bind,
          Except.bind]

/-- A number ends at the first byte that is not part of one. -/
theorem parseNumber_keeps : KeepsInside parseNumber parseNumber := by
  intro text value rest read filled extra
  cases text with
  | nil => cases read
  | cons c text =>
    rw [List.cons_append, parseNumber_cons]
    rw [parseNumber_cons] at read
    split at read
    · rename_i minus
      rw [if_pos minus]
      exact parseDigits_keeps true text value rest read filled extra
    · rename_i plus
      rw [if_neg plus]
      exact parseDigits_keeps false (c :: text) value rest read filled extra

/-! ## Values -/

/-- Behind an opening bracket: the closing one, or the loop. -/
theorem opened_keeps {close : UInt8} {empty : Json} {loop loop' : Bytes → Except JsonError (Json × Bytes)}
    (keeps : Keeps loop loop') :
    Keeps (fun text => match skipWs text with
        | [] => fail "unexpected end"
        | d :: after => if d = close then .ok (empty, after) else loop (d :: after))
      (fun text => match skipWs text with
        | [] => fail "unexpected end"
        | d :: after => if d = close then .ok (empty, after) else loop' (d :: after)) := by
  intro text value rest read extra
  cases shape : skipWs text with
  | nil =>
    simp only [shape] at read
    cases read
  | cons d after =>
    simp only [shape] at read
    simp only [skipWs_append shape]
    split at read
    · rename_i closed
      cases read
      rw [if_pos closed]
    · rename_i more
      rw [if_neg more]
      exact keeps _ _ _ read extra

/-- Behind an element: the next one, or the closing bracket. -/
theorem separated_keeps {close : UInt8} {done : Json} {message : String}
    {loop loop' : Bytes → Except JsonError (Json × Bytes)} (keeps : Keeps loop loop') :
    Keeps (fun text => match skipWs text with
        | [] => fail "unexpected end"
        | c :: rest =>
          if c = byte ',' then loop rest else if c = close then .ok (done, rest) else fail message)
      (fun text => match skipWs text with
        | [] => fail "unexpected end"
        | c :: rest =>
          if c = byte ',' then loop' rest else if c = close then .ok (done, rest) else fail message) := by
  intro text value rest read extra
  cases shape : skipWs text with
  | nil =>
    simp only [shape] at read
    cases read
  | cons c after =>
    simp only [shape] at read
    simp only [skipWs_append shape]
    split at read
    · rename_i comma
      rw [if_pos comma]
      exact keeps _ _ _ read extra
    rename_i comma
    rw [if_neg comma]
    split at read
    · rename_i closed
      cases read
      rw [if_pos closed]
    · cases read

/-- All three loops of the parser keep what they read, with any more fuel. -/
def ParserKeeps (fuel fuel' : Nat) : Prop :=
  KeepsInside (parseValue fuel) (parseValue fuel') ∧
    (∀ members, Keeps (parseMembers fuel members) (parseMembers fuel' members)) ∧
    ∀ items, Keeps (parseItems fuel items) (parseItems fuel' items)

theorem parseValue_step (keeps : ParserKeeps fuel fuel') :
    KeepsInside (parseValue (fuel + 1)) (parseValue (fuel' + 1)) := by
  intro text value rest read filled extra
  rw [parseValue] at read ⊢
  cases shape : skipWs text with
  | nil =>
    rw [shape] at read
    cases read
  | cons c after =>
    rw [shape] at read
    rw [skipWs_append shape]
    simp only at read ⊢
    split at read
    · rename_i object
      rw [if_pos object]
      exact opened_keeps (keeps.2.1 []) after value rest read extra
    rename_i object
    rw [if_neg object]
    split at read
    · rename_i array
      rw [if_pos array]
      exact opened_keeps (keeps.2.2 []) after value rest read extra
    rename_i array
    rw [if_neg array]
    split at read
    · rename_i quoted
      obtain ⟨⟨string, left⟩, known, done⟩ := Runs.bind_ok_iff.mp read
      cases done
      rw [if_pos quoted, parseRawString_keeps [] after string left known extra]
      rfl
    rename_i quoted
    rw [if_neg quoted]
    split at read
    · rename_i letter
      rw [if_pos letter]
      exact parseBool_keeps _ _ _ read extra
    rename_i letter
    rw [if_neg letter]
    split at read
    · rename_i letter
      rw [if_pos letter]
      exact parseNull_keeps _ _ _ read extra
    rename_i other
    rw [if_neg other]
    exact parseNumber_keeps _ _ _ read filled extra

theorem parseMembers_step (keeps : ParserKeeps fuel fuel') (members : List (Bytes × Json)) :
    Keeps (parseMembers (fuel + 1) members) (parseMembers (fuel' + 1) members) := by
  intro text value rest read extra
  rw [parseMembers] at read ⊢
  cases shape : skipWs text with
  | nil =>
    rw [shape] at read
    cases read
  | cons c after =>
    rw [shape] at read
    rw [skipWs_append shape]
    simp only at read ⊢
    split at read
    · cases read
    rename_i quoted
    rw [if_neg quoted]
    obtain ⟨⟨key, left⟩, known, read⟩ := Runs.bind_ok_iff.mp read
    rw [parseRawString_keeps [] after key left known extra]
    simp only [bind, Except.bind] at read ⊢
    cases colon : skipWs left with
    | nil =>
      rw [colon] at read
      cases read
    | cons d body =>
      rw [colon] at read
      rw [skipWs_append colon]
      simp only at read ⊢
      split at read
      · cases read
      rename_i separated
      rw [if_neg separated]
      obtain ⟨⟨member, behind⟩, inside, read⟩ := Runs.bind_ok_iff.mp read
      have filled : behind ≠ [] := by
        rintro rfl
        cases read
      rw [keeps.1 body member behind inside filled extra]
      exact separated_keeps (keeps.2.1 (members ++ [(key, member)])) behind value rest read extra

theorem parseItems_step (keeps : ParserKeeps fuel fuel') (items : List Json) :
    Keeps (parseItems (fuel + 1) items) (parseItems (fuel' + 1) items) := by
  intro text value rest read extra
  rw [parseItems] at read ⊢
  obtain ⟨⟨item, behind⟩, inside, read⟩ := Runs.bind_ok_iff.mp read
  have filled : behind ≠ [] := by
    rintro rfl
    cases read
  rw [keeps.1 text item behind inside filled extra]
  exact separated_keeps (keeps.2.2 (items ++ [item])) behind value rest read extra

theorem parser_keeps (enough : fuel ≤ fuel') : ParserKeeps fuel fuel' := by
  induction fuel generalizing fuel' with
  | zero =>
    refine ⟨?_, ?_, ?_⟩
    · intro text value rest read
      cases read
    · intro members text value rest read
      cases read
    · intro items text value rest read
      cases read
  | succ fuel ih =>
    obtain ⟨more, rfl⟩ : ∃ more, fuel' = more + 1 := ⟨fuel' - 1, by omega⟩
    have keeps : ParserKeeps fuel more := ih (by omega)
    exact ⟨parseValue_step keeps, parseMembers_step keeps, parseItems_step keeps⟩

/-! ## Objects and arrays -/

/-- Values written between brackets, which no number is. -/
def Bracketed (value : Json) : Prop := value.isObject = true ∨ value.isArray = true

def isOpening (c : UInt8) : Prop := c = byte '\x7b' ∨ c = byte '['

theorem opening_keeps (enough : fuel ≤ fuel') {c : UInt8} (opening : isOpening c) {text : Bytes}
    (read : parseValue (fuel + 1) (c :: text) = .ok (value, rest)) (extra : Bytes) :
    parseValue (fuel' + 1) (c :: (text ++ extra)) = .ok (value, rest ++ extra) := by
  rcases opening with rfl | rfl
  · rw [parseValue_object] at read ⊢
    exact opened_keeps ((parser_keeps enough).2.1 []) text value rest read extra
  · rw [parseValue_array] at read ⊢
    exact opened_keeps ((parser_keeps enough).2.2 []) text value rest read extra

theorem dump_bracketed {value : Json} (bracketed : Bracketed value) :
    ∃ c text, isOpening c ∧ value.dump = c :: text := by
  cases value with
  | object members => exact ⟨_, _, Or.inl rfl, by rw [dump]⟩
  | array items => exact ⟨_, _, Or.inr rfl, by rw [dump]⟩
  | _ => exact bracketed.elim (fun object => by cases object) fun array => by cases array

/-- A written value is read to its end. -/
theorem parseValue_whole (plain : doubleFree value = true) (enough : value.dump.length < fuel) :
    parseValue fuel value.dump = .ok (value, []) := by
  have ends : EndsNumber [] := by
    intro c member
    cases member
  have whole := parseValue_dump value plain ends fuel enough
  rwa [List.append_nil] at whole

/-- A written object or array is read whatever follows it. -/
theorem parse_bracketed_append (bracketed : Bracketed value) (plain : doubleFree value = true) (extra : Bytes) :
    parse (value.dump ++ extra) = .ok value := by
  have whole := parseValue_whole plain (Nat.lt_succ_self _)
  obtain ⟨c, text, opening, shape⟩ := dump_bracketed bracketed
  have enough : value.dump.length ≤ 2 * (value.dump ++ extra).length := by
    rw [List.length_append]
    omega
  rw [shape] at whole enough
  have more := opening_keeps enough opening whole extra
  rw [parse, shape, List.cons_append] at *
  rw [more]
  rfl

/-- No proper front of a written object or array is a value. -/
theorem parse_bracketed_take (bracketed : Bracketed value) (plain : doubleFree value = true) {n : Nat}
    (short : n < value.dump.length) (other : Json) : parse (value.dump.take n) ≠ .ok other := by
  have whole := parseValue_whole plain (show value.dump.length < 2 * value.dump.length + 1 by omega)
  obtain ⟨c, text, opening, shape⟩ := dump_bracketed bracketed
  intro read
  cases n with
  | zero => cases read
  | succ n =>
    obtain ⟨⟨front, left⟩, known, -⟩ := Runs.bind_ok_iff.mp read
    rw [shape, List.take_succ_cons] at known
    rw [shape] at short whole
    have within : 2 * (c :: text.take n).length ≤ 2 * (c :: text).length := by
      rw [List.length_cons, List.length_cons, List.length_take]
      omega
    have more := opening_keeps within opening known (text.drop n)
    rw [List.take_append_drop, whole] at more
    -- The whole text leaves nothing, so nothing was cut off.
    have nothing : ([] : Bytes) = left ++ text.drop n := congrArg (fun read => read.2) (Except.ok.inj more)
    have cut := List.append_eq_nil_iff.mp nothing.symm
    have none := List.drop_eq_nil_iff.mp cut.2
    rw [List.length_cons] at short
    omega

end Exchange.JsonPrefix
