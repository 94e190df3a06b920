import Exchange.JsonPrefix

/-! The JSON grammar over bytes, with its two kinds of token left open: what a
number may look like and which four bytes may follow `\u`. With the standard
tokens it is the language of JSON documents; with the ones the conversions of
the standard library read, it is the language of the parser. -/
namespace Exchange

/-- The tokens a grammar leaves open. -/
structure Lexicon where
  numeral : Bytes → Prop
  /-- The four bytes behind `\u`. -/
  unit : Bytes → Prop

namespace JsonGrammar
open Json

def Blank (text : Bytes) : Prop := ∀ c ∈ text, c ∈ ascii " \t\n\r"

/-- The inside of a string. Raw control bytes are let through. -/
inductive Chars (lexicon : Lexicon) : Bytes → Prop where
  | nil : Chars lexicon []
  | raw {c : UInt8} {rest : Bytes} (plain : c ≠ byte '"') (unescaped : c ≠ byte '\\')
      (chars : Chars lexicon rest) : Chars lexicon (c :: rest)
  | letter {e : UInt8} {rest : Bytes} (known : e ∈ ascii "\"\\/bfnrt") (chars : Chars lexicon rest) :
      Chars lexicon (byte '\\' :: e :: rest)
  | code {d₁ d₂ d₃ d₄ : UInt8} {rest : Bytes} (unit : lexicon.unit [d₁, d₂, d₃, d₄])
      (chars : Chars lexicon rest) : Chars lexicon (byte '\\' :: byte 'u' :: d₁ :: d₂ :: d₃ :: d₄ :: rest)

def quoted (body : Bytes) : Bytes := byte '"' :: (body ++ [byte '"'])

inductive Nonterminal where
  | value
  | element
  | elements
  | member
  | members

/-- The texts of each nonterminal. -/
inductive Phrase (lexicon : Lexicon) : Nonterminal → Bytes → Prop where
  | null : Phrase lexicon .value (ascii "null")
  | true_ : Phrase lexicon .value (ascii "true")
  | false_ : Phrase lexicon .value (ascii "false")
  | number {token : Bytes} (numeral : lexicon.numeral token) : Phrase lexicon .value token
  | string {body : Bytes} (chars : Chars lexicon body) : Phrase lexicon .value (quoted body)
  | emptyArray {blank : Bytes} (empty : Blank blank) : Phrase lexicon .value (byte '[' :: (blank ++ [byte ']']))
  | array {items : Bytes} (inside : Phrase lexicon .elements items) :
      Phrase lexicon .value (byte '[' :: (items ++ [byte ']']))
  | emptyObject {blank : Bytes} (empty : Blank blank) :
      Phrase lexicon .value (byte '\x7b' :: (blank ++ [byte '\x7d']))
  | object {entries : Bytes} (inside : Phrase lexicon .members entries) :
      Phrase lexicon .value (byte '\x7b' :: (entries ++ [byte '\x7d']))
  | element {before value after : Bytes} (front : Blank before) (inside : Phrase lexicon .value value)
      (back : Blank after) : Phrase lexicon .element (before ++ (value ++ after))
  | last {item : Bytes} (inside : Phrase lexicon .element item) : Phrase lexicon .elements item
  | more {item items : Bytes} (inside : Phrase lexicon .element item) (others : Phrase lexicon .elements items) :
      Phrase lexicon .elements (item ++ byte ',' :: items)
  | member {before key after item : Bytes} (front : Blank before) (chars : Chars lexicon key)
      (back : Blank after) (inside : Phrase lexicon .element item) :
      Phrase lexicon .member (before ++ (quoted key ++ (after ++ byte ':' :: item)))
  | lastMember {entry : Bytes} (inside : Phrase lexicon .member entry) : Phrase lexicon .members entry
  | moreMembers {entry entries : Bytes} (inside : Phrase lexicon .member entry)
      (others : Phrase lexicon .members entries) : Phrase lexicon .members (entry ++ byte ',' :: entries)

/-! ## The standard tokens -/

def Digits (text : Bytes) : Prop := text ≠ [] ∧ ∀ c ∈ text, isDigit c = true

/-- No leading zero. -/
def Whole (text : Bytes) : Prop := text = [byte '0'] ∨ (Digits text ∧ text.head? ≠ some (byte '0'))

def Fraction (text : Bytes) : Prop := text = [] ∨ ∃ digits, Digits digits ∧ text = byte '.' :: digits

def Exponent (text : Bytes) : Prop :=
  text = [] ∨ ∃ mark sign digits, mark ∈ ascii "eE" ∧ (sign = [] ∨ sign = ascii "+" ∨ sign = ascii "-") ∧
    Digits digits ∧ text = mark :: (sign ++ digits)

/-- An integer is a 64-bit word; a number with a fraction or an exponent is one
that `stod` reads without a range error. -/
def InRange (negative : Bool) (whole fraction exponent token : Bytes) : Prop :=
  if fraction = [] ∧ exponent = [] then
    let value : Int := if negative then -decimalValue whole else decimalValue whole
    value < 2 ^ 63 ∧ -2 ^ 63 ≤ value
  else ∃ value, stod token = .ok value

/-- A number of the JSON grammar that the program can hold. -/
def Numeral (token : Bytes) : Prop :=
  ∃ negative whole fraction exponent, Whole whole ∧ Fraction fraction ∧ Exponent exponent ∧
    token = (if negative then [byte '-'] else []) ++ (whole ++ (fraction ++ exponent)) ∧
    InRange negative whole fraction exponent token

def standard : Lexicon where
  numeral := Numeral
  unit digits := digits.length = 4 ∧ ∀ c ∈ digits, isHexDigit c = true

/-! ## The tokens the parser reads -/

/-- The bytes of a number token behind its sign. -/
def isNumberByte (c : UInt8) : Bool := isDigit c || isNumberMark c

/-- Digits, points, exponent marks and signs in any order, as long as `stoll`
(on digits only) or `stod` reads a number at their front. -/
def ReadsDigits (negative : Bool) (body : Bytes) : Prop :=
  (∀ c ∈ body, isNumberByte c = true) ∧
    if body.any isNumberMark then ∃ value, stod (if negative then byte '-' :: body else body) = .ok value
    else ∃ value, stoll negative body = .ok value

def ReadsNumber : Bytes → Prop
  | [] => False
  | c :: body => if c = byte '-' then ReadsDigits true body else ReadsDigits false (c :: body)

def tolerated : Lexicon where
  numeral := ReadsNumber
  unit digits := ∃ code, stoi16 digits = .ok code

/-! ## The standard language is part of the tolerated one -/

variable {first second : Lexicon}

theorem chars_mono (units : ∀ digits, first.unit digits → second.unit digits) {text : Bytes}
    (chars : Chars first text) : Chars second text := by
  induction chars with
  | nil => exact .nil
  | raw plain unescaped _ ih => exact .raw plain unescaped ih
  | letter known _ ih => exact .letter known ih
  | code unit _ ih => exact .code (units _ unit) ih

theorem phrase_mono (numerals : ∀ token, first.numeral token → second.numeral token)
    (units : ∀ digits, first.unit digits → second.unit digits) {kind : Nonterminal} {text : Bytes}
    (phrase : Phrase first kind text) : Phrase second kind text := by
  induction phrase with
  | null => exact .null
  | true_ => exact .true_
  | false_ => exact .false_
  | number numeral => exact .number (numerals _ numeral)
  | string chars => exact .string (chars_mono units chars)
  | emptyArray empty => exact .emptyArray empty
  | array _ ih => exact .array ih
  | emptyObject empty => exact .emptyObject empty
  | object _ ih => exact .object ih
  | element front _ back ih => exact .element front ih back
  | last _ ih => exact .last ih
  | more _ _ ih others => exact .more ih others
  | member front chars back _ ih => exact .member front (chars_mono units chars) back ih
  | lastMember _ ih => exact .lastMember ih
  | moreMembers _ _ ih others => exact .moreMembers ih others

theorem hexDigit_plain (c : UInt8) : isHexDigit c = true →
    isSpace c = false ∧ c ≠ byte '-' ∧ c ≠ byte '+' ∧ c ≠ byte 'x' ∧ c ≠ byte 'X' :=
  JsonRoundTrip.forall_byte (P := fun c => isHexDigit c = true →
    isSpace c = false ∧ c ≠ byte '-' ∧ c ≠ byte '+' ∧ c ≠ byte 'x' ∧ c ≠ byte 'X') (by decide +kernel) c

/-- Four hexadecimal digits are read to their end. -/
theorem unit_tolerated (digits : Bytes) (unit : standard.unit digits) : tolerated.unit digits := by
  obtain ⟨four, hex⟩ := unit
  match digits, four with
  | [d₁, d₂, d₃, d₄], _ =>
    obtain ⟨solid, minus, plus, -⟩ := hexDigit_plain d₁ (hex d₁ (by simp))
    obtain ⟨-, -, -, small, large⟩ := hexDigit_plain d₂ (hex d₂ (by simp))
    have digit := hex d₁ (by simp)
    simp [tolerated, stoi16, scanHex, solid, takeSign, minus, plus, dropHexPrefix, small, large, digit]

/-- A digit is neither a mark nor a minus sign. -/
theorem digit_plain (c : UInt8) : isDigit c = true → isNumberMark c = false ∧ c ≠ byte '-' :=
  JsonRoundTrip.forall_byte (P := fun c => isDigit c = true → isNumberMark c = false ∧ c ≠ byte '-')
    (by decide +kernel) c

theorem whole_digits {text : Bytes} (whole : Whole text) : Digits text := by
  rcases whole with rfl | ⟨digits, -⟩
  · exact ⟨by simp, by simp only [List.mem_singleton, forall_eq]; decide⟩
  · exact digits

/-- What follows the integer part is made of digits and marks, and begins with a mark. -/
theorem fraction_marks {text : Bytes} (fraction : Fraction text) :
    (∀ c ∈ text, isNumberByte c = true) ∧ (text ≠ [] → text.any isNumberMark = true) := by
  rcases fraction with rfl | ⟨digits, ⟨-, each⟩, rfl⟩
  · simp
  · refine ⟨fun c member => ?_, fun _ => rfl⟩
    rcases List.mem_cons.mp member with rfl | inside
    · rfl
    · simp [isNumberByte, each c inside]

theorem exponent_marks {text : Bytes} (exponent : Exponent text) :
    (∀ c ∈ text, isNumberByte c = true) ∧ (text ≠ [] → text.any isNumberMark = true) := by
  rcases exponent with rfl | ⟨mark, sign, digits, known, signed, ⟨-, each⟩, rfl⟩
  · simp
  · have marks : isNumberMark mark = true := by
      have one : mark = byte 'e' ∨ mark = byte 'E' := by simpa [ascii, byte] using known
      rcases one with rfl | rfl <;> rfl
    refine ⟨fun c member => ?_, fun _ => by simp [marks]⟩
    rcases List.mem_cons.mp member with rfl | inside
    · simp [isNumberByte, marks]
    · rcases List.mem_append.mp inside with front | behind
      · rcases signed with rfl | rfl | rfl
        · cases front
        · rw [List.mem_singleton.mp front]
          rfl
        · rw [List.mem_singleton.mp front]
          rfl
      · simp [isNumberByte, each c behind]

theorem digits_tolerated {negative : Bool} {whole fraction exponent : Bytes} (whole_ : Whole whole)
    (fraction_ : Fraction fraction) (exponent_ : Exponent exponent)
    (range : InRange negative whole fraction exponent
      ((if negative then [byte '-'] else []) ++ (whole ++ (fraction ++ exponent)))) :
    ReadsDigits negative (whole ++ (fraction ++ exponent)) := by
  obtain ⟨filled, digits⟩ := whole_digits whole_
  constructor
  · intro c member
    simp only [List.mem_append] at member
    rcases member with inside | inside | inside
    · simp [isNumberByte, digits c inside]
    · exact (fraction_marks fraction_).1 c inside
    · exact (exponent_marks exponent_).1 c inside
  · unfold InRange at range
    split at range
    · rename_i none_
      have unmarked : whole.any isNumberMark = false := by
        rw [List.any_eq_false]
        intro c member
        simp [(digit_plain c (digits c member)).1]
      rw [none_.1, none_.2, List.append_nil, List.append_nil, unmarked]
      simp only [Bool.false_eq_true, ↓reduceIte, stoll, filled]
      rw [if_pos range.symm]
      exact ⟨_, rfl⟩
    · rename_i some_
      have marked : (whole ++ (fraction ++ exponent)).any isNumberMark = true := by
        rw [List.any_append, List.any_append]
        rcases not_and_or.mp some_ with more | more
        · simp [(fraction_marks fraction_).2 more]
        · simp [(exponent_marks exponent_).2 more]
      rw [if_pos marked]
      cases negative <;> exact range

theorem number_tolerated (token : Bytes) (numeral : standard.numeral token) : tolerated.numeral token := by
  obtain ⟨negative, whole, fraction, exponent, whole_, fraction_, exponent_, shape, range⟩ := numeral
  rw [shape] at range ⊢
  have reads := digits_tolerated whole_ fraction_ exponent_ range
  cases negative with
  | true => exact reads
  | false =>
    obtain ⟨filled, digits⟩ := whole_digits whole_
    obtain ⟨first, others, front⟩ := List.exists_cons_of_ne_nil filled
    have unsigned : first ≠ byte '-' := (digit_plain first (digits first (by simp [front]))).2
    rw [front] at reads ⊢
    exact (if_neg unsigned).mpr reads

theorem phrase_tolerated {kind : Nonterminal} {text : Bytes} (phrase : Phrase standard kind text) :
    Phrase tolerated kind text :=
  phrase_mono number_tolerated unit_tolerated phrase

end JsonGrammar
end Exchange
