import Exchange.JsonAcceptance

/-! The parser comes to an end on every text: the bound on the depth of its
calls is never what stops it. So a cut-off document, which it cannot accept, is
answered by one of its own exceptions. -/
namespace Exchange.TornDocument
open Json JsonRoundTrip JsonPrefix JsonGrammar JsonAcceptance

variable {α β : Type} {text rest : Bytes} {value : Json} {fuel : Nat}

/-- A value or an exception of the source. -/
def Settles (result : Except JsonError α) : Prop := result ≠ .error .outOfFuel

theorem settles_ok (value : α) : Settles (.ok value : Except JsonError α) := by
  simp [Settles]

theorem settles_fail (message : String) : Settles (fail message : Except JsonError α) := by
  simp [Settles, fail]

theorem settles_bind {first : Except JsonError α} {next : α → Except JsonError β} (settles : Settles first)
    (onward : ∀ value, first = .ok value → Settles (next value)) : Settles (first >>= next) := by
  cases first with
  | error error => exact fun stuck => settles (by cases stuck; rfl)
  | ok value => exact onward value rfl

theorem settles_ite {condition : Prop} [Decidable condition] {yes no : Except JsonError α}
    (first : condition → Settles yes) (second : ¬ condition → Settles no) :
    Settles (if condition then yes else no) := by
  split
  · exact first ‹_›
  · exact second ‹_›

/-! ## Tokens -/

theorem stoi16_settles (text : Bytes) : Settles (stoi16 text) := by
  unfold stoi16
  split <;> simp [Settles]

theorem stoll_settles (negative : Bool) (digits : Bytes) : Settles (stoll negative digits) := by
  unfold stoll
  refine settles_ite (fun _ => by simp [Settles]) fun _ =>
    settles_ite (fun _ => settles_ok _) fun _ => by simp [Settles]

theorem stod_settles (token : Bytes) : Settles (stod token) := by
  unfold stod
  refine settles_ite (fun _ => by simp [Settles]) fun _ => ?_
  dsimp only
  generalize Binary64.ofRatio _ _ _ = nearest
  cases nearest <;> simp [Settles]

theorem parseRawString_settles (out text : Bytes) : Settles (parseRawString out text) := by
  induction out, text using parseRawString.induct with
  | case1 out => exact settles_fail _
  | case2 out after =>
    rw [parseRawString.eq_def]
    simpa using settles_ok _
  | case3 out quote =>
    rw [parseRawString.eq_def]
    simpa only [quote, ↓reduceIte] using settles_fail _
  | case4 out d₁ d₂ d₃ d₄ after quote ih =>
    rw [parseRawString.eq_def]
    simp only [quote, ↓reduceIte]
    exact settles_bind (stoi16_settles _) fun code _ => ih code
  | case5 out after short quote =>
    rw [parseRawString.eq_def]
    simpa only [quote, ↓reduceIte] using settles_fail _
  | case6 out e after letter c stands quote ih =>
    rw [parseRawString_letter out after letter stands]
    exact ih
  | case7 out e after letter unknown quote =>
    rw [parseRawString.eq_def]
    simpa only [quote, letter, unknown, ↓reduceIte] using settles_fail _
  | case8 out c after quote backslash ih =>
    rw [parseRawString.eq_def]
    simpa only [quote, backslash, ↓reduceIte] using ih

theorem parseBool_settles (text : Bytes) : Settles (parseBool text) := by
  unfold parseBool
  split
  · exact settles_ok _
  · split
    · exact settles_ok _
    · exact settles_fail _

theorem parseNull_settles (text : Bytes) : Settles (parseNull text) := by
  unfold parseNull
  split
  · exact settles_ok _
  · exact settles_fail _

theorem parseNumber_settles (text : Bytes) : Settles (parseNumber text) := by
  unfold parseNumber
  refine settles_ite (fun _ => settles_fail _) fun _ => settles_ite (fun _ => ?_) fun _ => ?_
  · exact settles_bind (stod_settles _) fun _ _ => settles_ok _
  · exact settles_bind (stoll_settles _ _) fun _ _ => settles_ok _

/-! ## Loops -/

theorem parseValue_shorter (read : parseValue fuel text = .ok (value, rest)) : rest.length < text.length := by
  obtain ⟨blank, token, opens⟩ := (parser_sound fuel).value _ _ _ read
  obtain ⟨c, body, rfl, -⟩ := value_head opens.value
  rw [opens.shape, List.length_append, List.length_append, List.length_cons]
  omega

theorem parseRawString_shorter {out string : Bytes} (read : parseRawString out text = .ok (string, rest)) :
    rest.length < text.length := by
  obtain ⟨body, -, rfl⟩ := parseRawString_sound read
  rw [List.length_append, List.length_cons]
  omega

theorem skipWs_shorter {c : UInt8} (found : skipWs text = c :: rest) : rest.length < text.length := by
  have size := (List.dropWhile_suffix (p := isWs) (l := text)).length_le
  rw [← skipWs, found, List.length_cons] at size
  omega

/-- Each loop settles on a text half as long as its bound. -/
structure ParserSettles (fuel : Nat) : Prop where
  value : ∀ text, 2 * text.length < fuel → Settles (parseValue fuel text)
  members : ∀ members text, 2 * text.length + 1 < fuel → Settles (parseMembers fuel members text)
  items : ∀ items text, 2 * text.length + 1 < fuel → Settles (parseItems fuel items text)

theorem parseValue_settles (settles : ParserSettles fuel) (enough : 2 * text.length < fuel + 1) :
    Settles (parseValue (fuel + 1) text) := by
  rw [parseValue]
  cases found : skipWs text with
  | nil => exact settles_fail _
  | cons c after =>
    have less := skipWs_shorter found
    refine settles_ite (fun _ => ?_) fun _ => settles_ite (fun _ => ?_) fun _ => settles_ite (fun _ => ?_) fun _ =>
      settles_ite (fun _ => parseBool_settles _) fun _ => settles_ite (fun _ => parseNull_settles _) fun _ =>
        parseNumber_settles _
    · cases inside : skipWs after with
      | nil => exact settles_fail _
      | cons d behind =>
        have shorter := skipWs_shorter inside
        refine settles_ite (fun _ => settles_ok _) fun _ => settles.members [] _ ?_
        rw [List.length_cons]
        omega
    · cases inside : skipWs after with
      | nil => exact settles_fail _
      | cons d behind =>
        have shorter := skipWs_shorter inside
        refine settles_ite (fun _ => settles_ok _) fun _ => settles.items [] _ ?_
        rw [List.length_cons]
        omega
    · exact settles_bind (parseRawString_settles [] after) fun _ _ => settles_ok _

theorem parseMembers_settles (settles : ParserSettles fuel) (members : List (Bytes × Json))
    (enough : 2 * text.length + 1 < fuel + 1) : Settles (parseMembers (fuel + 1) members text) := by
  rw [parseMembers]
  cases found : skipWs text with
  | nil => exact settles_fail _
  | cons c after =>
    have less := skipWs_shorter found
    refine settles_ite (fun _ => settles_fail _) fun _ => settles_bind (parseRawString_settles [] after) ?_
    rintro ⟨key, left⟩ named
    have lessKey := parseRawString_shorter named
    dsimp only
    cases colon : skipWs left with
    | nil => exact settles_fail _
    | cons d item =>
      have lessColon := skipWs_shorter colon
      refine settles_ite (fun _ => settles_fail _) fun _ => settles_bind (settles.value item (by omega)) ?_
      rintro ⟨member, behind⟩ read
      have lessItem := parseValue_shorter read
      dsimp only
      cases comma : skipWs behind with
      | nil => exact settles_fail _
      | cons e onward =>
        have lessOnward := skipWs_shorter comma
        exact settles_ite (fun _ => settles.members _ onward (by omega)) fun _ =>
          settles_ite (fun _ => settles_ok _) fun _ => settles_fail _

theorem parseItems_settles (settles : ParserSettles fuel) (items : List Json)
    (enough : 2 * text.length + 1 < fuel + 1) : Settles (parseItems (fuel + 1) items text) := by
  rw [parseItems]
  refine settles_bind (settles.value text (by omega)) ?_
  rintro ⟨item, behind⟩ read
  have less := parseValue_shorter read
  dsimp only
  cases comma : skipWs behind with
  | nil => exact settles_fail _
  | cons e onward =>
    have lessOnward := skipWs_shorter comma
    exact settles_ite (fun _ => settles.items _ onward (by omega)) fun _ =>
      settles_ite (fun _ => settles_ok _) fun _ => settles_fail _

theorem parser_settles (fuel : Nat) : ParserSettles fuel := by
  induction fuel with
  | zero =>
    exact ⟨fun _ enough => absurd enough (by omega), fun _ _ enough => absurd enough (by omega),
      fun _ _ enough => absurd enough (by omega)⟩
  | succ fuel settles =>
    exact ⟨fun _ => parseValue_settles settles, fun members _ => parseMembers_settles settles members,
      fun items _ => parseItems_settles settles items⟩

/-- Whatever the text, parsing it returns a value or throws. -/
theorem parse_settles (text : Bytes) : Settles (parse text) :=
  settles_bind ((parser_settles _).value text (Nat.lt_succ_self _)) fun _ _ => settles_ok _

/-- Parsing the text throws an exception of the source. -/
def Throws (text : Bytes) : Prop := ∃ error, error ≠ .outOfFuel ∧ parse text = .error error

theorem throws_of_refused (refused : ∀ value, parse text ≠ .ok value) : Throws text := by
  cases result : parse text with
  | ok value => exact absurd result (refused value)
  | error error =>
    refine ⟨error, ?_, result⟩
    rintro rfl
    exact parse_settles text result

/-- Every proper front of a written object or array throws. -/
theorem torn_document_throws (value : Json) (bracketed : Bracketed value) (plain : doubleFree value = true)
    (front : Bytes) (torn : front <+: value.dump) (short : front ≠ value.dump) : Throws front := by
  refine throws_of_refused fun other => ?_
  have less : front.length < value.dump.length :=
    lt_of_le_of_ne torn.length_le fun same => short (torn.eq_of_length same)
  rw [List.prefix_iff_eq_take.mp torn]
  exact parse_bracketed_take bracketed plain less other

theorem torn_list_throws : Throws (ascii "[1,[2") :=
  torn_document_throws (.array [.int 1, .array [.int 23]]) (Or.inr rfl) rfl (ascii "[1,[2") (by decide) (by decide)

end Exchange.TornDocument
