import Mathlib
import MatScript.Proofs.Grammar
import MatScript.Proofs.NearestFloats
import MatScript.Token.Scan

/-! How lexemes are written, and what the scanner reads: a lexeme that is followed by a blank, a
newline, a comment or the end of the text is read as it was written, and nothing after it. -/
namespace MatScript

/-! ## Digits -/

namespace Text

variable {c : Char} {cs : List Char}

lemma isDigit_iff : isDigit c = true ↔ ∃ z ∈ digitZeros, z ≤ c.toNat ∧ c.toNat < z + 10 := by
  simp [isDigit, digitValue?]

/-- The digits of all other scripts come long after those of the first one. -/
lemma toNat_of_isDigit (h : isDigit c = true) :
    0x30 ≤ c.toNat ∧ c.toNat < 0x3a ∨ 0x660 ≤ c.toNat := by
  obtain ⟨z, hz, hle, hlt⟩ := isDigit_iff.mp h
  have hzero : ∀ z ∈ digitZeros, z = 0x30 ∨ 0x660 ≤ z := by decide
  rcases hzero z hz with rfl | hz
  · exact .inl ⟨hle, hlt⟩
  · exact .inr (Nat.le_trans hz hle)

lemma toNat_of_ascii (h : c.isDigit = true) : 0x30 ≤ c.toNat ∧ c.toNat < 0x3a := by
  simp only [Char.isDigit, Bool.and_eq_true, decide_eq_true_eq, UInt32.le_iff_toNat_le, ge_iff_le] at h
  have hhigh : c.toNat ≤ 57 := h.2
  exact ⟨h.1, Nat.lt_succ_of_le hhigh⟩

lemma digitValue?_of_ascii (h : c.isDigit = true) : digitValue? c = some (c.toNat - 0x30) := by
  obtain ⟨hle, hlt⟩ := toNat_of_ascii h
  simp [digitValue?, digitZeros, hle, hlt]

lemma isDigit_of_ascii (h : c.isDigit = true) : isDigit c = true := by
  rw [isDigit, digitValue?_of_ascii h]
  rfl

/-- The number that decimal digits of any script write. -/
def number (cs : List Char) : Nat :=
  Nat.ofDigits 10 (cs.map fun c => (digitValue? c).getD 0).reverse

lemma digitsValue_eq_number (cs : List Char) : digitsValue cs = number cs := by
  induction cs using List.reverseRecOn with
  | nil => rfl
  | append_singleton cs c ih =>
    rw [digitsValue, List.foldl_append, List.foldl_cons, List.foldl_nil, ← digitsValue, ih, number,
      number, List.map_append, List.reverse_append, List.map_singleton, List.reverse_singleton,
      List.singleton_append, Nat.ofDigits_cons, Nat.add_comm]

end Text

/-! ## Written lexemes -/

/-- The exponent of a float. -/
structure Exponent where
  mark : Char
  sign : Option Char
  digits : List Char
  mark_fits : mark = 'e' ∨ mark = 'E'
  sign_fits : ∀ s ∈ sign, s = '-' ∨ s = '+'
  digits_ne_nil : digits ≠ []
  digits_fit : ∀ d ∈ digits, Text.isDigit d = true

namespace Exponent

def chars (e : Exponent) : List Char := e.mark :: (e.sign.toList ++ e.digits)

def value (e : Exponent) : Int :=
  if e.sign = some '-' then -(Text.number e.digits) else Text.number e.digits

end Exponent

/-- A text literal between its quotes: a backslash stands before each quote. -/
def escape (s : List Char) : List Char := s.flatMap fun c => if c = '"' then ['\\', '"'] else [c]

/-- The ways to write a lexeme. -/
inductive Spelling where
  | name (first : Char) (rest : List Char) (first_fits : Lexeme.isNameStart first = true)
    (rest_fits : ∀ c ∈ rest, Lexeme.isNamePart c = true)
    (not_reserved : ∀ k : Keyword, k.spelling ≠ String.ofList (first :: rest))
  | keyword (k : Keyword)
  | int (digits : List Char) (digits_ne_nil : digits ≠ [])
    (digits_fit : ∀ d ∈ digits, d.isDigit = true) (length_le : digits.length ≤ 4300)
  /-- A float with a point, which has a digit beside it. -/
  | pointed (whole fraction : List Char) (exponent : Option Exponent)
    (whole_fits : ∀ d ∈ whole, Text.isDigit d = true)
    (fraction_fits : ∀ d ∈ fraction, Text.isDigit d = true)
    (ne_nil : whole ≠ [] ∨ fraction ≠ [])
  /-- A float without a point, which has an exponent. -/
  | scaled (whole : List Char) (exponent : Exponent)
    (whole_fits : ∀ d ∈ whole, Text.isDigit d = true) (whole_ne_nil : whole ≠ [])
  | symbol (s : Symbol)
  | text (s : List Char) (no_backslash : '\\' ∉ s)

namespace Spelling

def chars : Spelling → List Char
  | name first rest _ _ _ => first :: rest
  | keyword k => k.spelling.toList
  | int digits _ _ _ => digits
  | pointed whole fraction exponent _ _ _ =>
    whole ++ '.' :: (fraction ++ exponent.elim [] Exponent.chars)
  | scaled whole exponent _ _ => whole ++ exponent.chars
  | symbol s => s.spelling.toList
  | text s _ => '"' :: (escape s ++ ['"'])

/-- The lexeme is what is written. The number of a float literal is the one that its decimal digits
give, where the digits after the point lower the exponent, and its float is the nearest one. -/
def Denotes : Spelling → Lexeme → Prop
  | name first rest _ _ _, l => l = .name (String.ofList (first :: rest))
  | keyword k, l => l = .keyword k
  | int digits _ _ _, l =>
    l = .int (Nat.ofDigits 10 (digits.map fun d => d.toNat - '0'.toNat).reverse)
  | pointed whole fraction exponent _ _ _, l =>
    ∃ x, l = .float x ∧ Number.IsNearest (Text.number (whole ++ fraction) *
      10 ^ (exponent.elim 0 Exponent.value - fraction.length)) x
  | scaled whole exponent _ _, l =>
    ∃ x, l = .float x ∧ Number.IsNearest (Text.number whole * 10 ^ exponent.value) x
  | symbol s, l => l = .symbol s
  | text s _, l => l = .text (String.ofList s)

/-- What is written is one lexeme. -/
lemma Denotes.unique {s : Spelling} {k l : Lexeme} (hk : s.Denotes k) (hl : s.Denotes l) : k = l := by
  cases s with
  | pointed whole fraction exponent =>
    obtain ⟨x, rfl, hx⟩ := hk
    obtain ⟨y, rfl, hy⟩ := hl
    rw [hx.unique hy]
  | scaled whole exponent =>
    obtain ⟨x, rfl, hx⟩ := hk
    obtain ⟨y, rfl, hy⟩ := hl
    rw [hx.unique hy]
  | name | keyword | int | symbol | text => exact hk.trans hl.symm

end Spelling

/-! ## Where a lexeme ends -/

/-- The characters with which what separates lexemes starts. -/
def startsGap (c : Char) : Bool := c = ' ' || c = '\t' || c = '\n' || c = '#'

/-- The text ends, or something that separates lexemes follows. -/
def AtGap (rest : List Char) : Prop := ∀ c ∈ rest.head?, startsGap c = true

lemma eq_of_startsGap {c : Char} (h : startsGap c = true) :
    c = ' ' ∨ c = '\t' ∨ c = '\n' ∨ c = '#' := by
  simpa [startsGap, or_assoc] using h

lemma AtGap.not_of {p : Char → Bool} {rest : List Char} (h : AtGap rest)
    (hp : ∀ c, startsGap c = true → p c = false) : ∀ c ∈ rest.head?, p c = false :=
  fun c hc => hp c (h c hc)

lemma isDigit_of_startsGap {c : Char} (h : startsGap c = true) : Text.isDigit c = false := by
  rcases eq_of_startsGap h with rfl | rfl | rfl | rfl <;> decide

lemma isNamePart_of_startsGap {c : Char} (h : startsGap c = true) :
    Lexeme.isNamePart c = false := by
  rcases eq_of_startsGap h with rfl | rfl | rfl | rfl <;> decide

section

variable {p : Char → Bool} {cs rest : List Char}

/-- A run of characters ends where the next one does not belong to it. -/
lemma takeWhile_append_eq (hcs : ∀ c ∈ cs, p c = true) (hrest : ∀ c ∈ rest.head?, p c = false) :
    (cs ++ rest).takeWhile p = cs := by
  rw [List.takeWhile_append_of_pos hcs]
  cases rest with
  | nil => simp
  | cons c rest => simp [hrest c rfl]

lemma dropWhile_append_eq (hcs : ∀ c ∈ cs, p c = true) (hrest : ∀ c ∈ rest.head?, p c = false) :
    (cs ++ rest).dropWhile p = rest := by
  rw [List.dropWhile_append_of_pos hcs]
  cases rest with
  | nil => rfl
  | cons c rest => simp [hrest c rfl]

end

namespace Token

variable {c : Char} {cs rest : List Char}

/-! ## Words -/

/-- A word is read to its end. -/
lemma piece_word (hc : Lexeme.isNameStart c = true) (hcs : ∀ d ∈ cs, Lexeme.isNamePart d = true)
    (h : AtGap rest) : piece c (cs ++ rest) = (.lexeme (.ofWord (c :: cs)), cs.length) := by
  have hblank : ¬(c = ' ' ∨ c = '\t') := by
    rintro (rfl | rfl) <;> exact absurd hc (by decide)
  have hrun := takeWhile_append_eq hcs (h.not_of fun _ => isNamePart_of_startsGap)
  unfold piece
  rw [if_neg hblank, if_pos hc]
  simp only [hrun]

lemma ofWord_of_not_reserved (h : ∀ k : Keyword, k.spelling ≠ String.ofList cs) :
    Lexeme.ofWord cs = .name (String.ofList cs) := by
  have hnone : Keyword.ofName? (String.ofList cs) = none := by
    rw [Keyword.ofName?, List.find?_eq_none]
    intro k _
    simpa using h k
  simp only [Lexeme.ofWord, hnone]

lemma ofWord_spelling (k : Keyword) : Lexeme.ofWord k.spelling.toList = .keyword k := by
  simp only [Lexeme.ofWord, String.ofList_toList, Keyword.ofName?_spelling]

/-- A reserved word is a word. -/
lemma spelling_keyword (k : Keyword) : ∃ c cs, k.spelling.toList = c :: cs ∧
    Lexeme.isNameStart c = true ∧ ∀ d ∈ cs, Lexeme.isNamePart d = true := by
  cases k <;> exact ⟨_, _, rfl, by decide, List.all_eq_true.mp (by decide)⟩

/-! ## Texts -/

lemma openQuote?_cons (hq : c ≠ '"') (hb : c ≠ '\\') :
    Lexeme.openQuote? (c :: cs) = (Lexeme.openQuote? cs).map (· + 1) := by
  rw [Lexeme.openQuote?]
  · exact hq
  · exact fun _ _ h _ => hb h

lemma unescape_cons (hb : c ≠ '\\') :
    Lexeme.unescape (c :: cs) = c :: Lexeme.unescape cs := by
  rw [Lexeme.unescape]
  exact fun _ h _ => hb h

lemma openQuote?_escape (s : List Char) (hs : '\\' ∉ s) :
    Lexeme.openQuote? (escape s ++ '"' :: rest) = some (escape s).length := by
  induction s with
  | nil => rfl
  | cons c s ih =>
    obtain ⟨hc, hs⟩ := not_or.mp (List.mem_cons.not.mp hs)
    rw [escape, List.flatMap_cons, ← escape]
    by_cases hq : c = '"'
    · simp [hq, Lexeme.openQuote?, ih hs]
    · simp [hq, openQuote?_cons hq (Ne.symm hc), ih hs]

lemma unescape_escape (s : List Char) (hs : '\\' ∉ s) : Lexeme.unescape (escape s) = s := by
  induction s with
  | nil => rfl
  | cons c s ih =>
    obtain ⟨hc, hs⟩ := not_or.mp (List.mem_cons.not.mp hs)
    rw [escape, List.flatMap_cons, ← escape]
    by_cases hq : c = '"'
    · simp [hq, Lexeme.unescape, ih hs]
    · simp [hq, unescape_cons (Ne.symm hc), ih hs]

/-- A text literal ends at its own quote, whatever follows. -/
lemma piece_text (s : List Char) (hs : '\\' ∉ s) (rest : List Char) :
    piece '"' (escape s ++ '"' :: rest) =
      (.lexeme (.text (String.ofList s)), (escape s ++ ['"']).length) := by
  have hlength : Lexeme.textLength? (escape s ++ '"' :: rest) = some (escape s).length := by
    rw [Lexeme.textLength?, openQuote?_escape s hs]
  unfold piece
  rw [if_neg (by decide), if_neg (by decide), if_neg (by decide), if_neg (by decide),
    if_pos rfl, hlength]
  simp only [List.take_left, unescape_escape s hs, List.length_append, List.length_singleton]

/-! ## Numbers -/

/-- Where no other rule applies, a number or a symbol is read. -/
lemma piece_eq_numberPiece (hgap : startsGap c = false) (hname : Lexeme.isNameStart c = false)
    (hquote : c ≠ '"') : piece c rest = numberPiece c rest := by
  simp only [startsGap, Bool.or_eq_false_iff, decide_eq_false_iff_not] at hgap
  obtain ⟨⟨⟨hspace, htab⟩, hnewline⟩, hcomment⟩ := hgap
  unfold piece
  rw [if_neg (by simp [hspace, htab]), if_neg (by simp [hname]), if_neg hnewline, if_neg hcomment,
    if_neg hquote]

/-- A number or a symbol is neither a newline nor a name. -/
lemma numberPiece_ne {p : Piece} (hp : p = .newline ∨ ∃ id, p = .lexeme (.name id)) :
    (numberPiece c rest).1 ≠ p := by
  simp only [numberPiece, symbolPiece]
  rcases hp with rfl | ⟨id, rfl⟩ <;> repeat' split
  all_goals nofun

lemma isNameStart_of_isDigit (h : Text.isDigit c = true) : Lexeme.isNameStart c = false := by
  have hrange := Text.toNat_of_isDigit h
  have hunder : c ≠ '_' := by
    rintro rfl
    exact absurd h (by decide)
  have halpha : c.isAlpha = false := by
    simp only [Char.isAlpha, Char.isUpper, Char.isLower, Bool.or_eq_false_iff, Bool.and_eq_false_iff,
      decide_eq_false_iff_not, UInt32.le_iff_toNat_le, ge_iff_le]
    change ¬(65 ≤ c.toNat ∧ c.toNat ≤ 90) ∧ (¬97 ≤ c.toNat ∨ ¬c.toNat ≤ 122)
    omega
  simp [Lexeme.isNameStart, halpha, hunder]

/-- A digit starts a number. -/
lemma piece_digit (h : Text.isDigit c = true) : piece c rest = numberPiece c rest := by
  have hgap : startsGap c = false := by
    by_contra hg
    rw [Bool.not_eq_false] at hg
    rw [isDigit_of_startsGap hg] at h
    cases h
  refine piece_eq_numberPiece hgap (isNameStart_of_isDigit h) ?_
  rintro rfl
  exact absurd h (by decide)

lemma exponentLength_of_atGap (h : AtGap rest) : Lexeme.exponentLength rest = 0 := by
  cases rest with
  | nil => rfl
  | cons c rest =>
    have hc : ¬(c = 'e' ∨ c = 'E') := by
      rintro (rfl | rfl) <;> exact absurd (h _ rfl) (by decide)
    simp only [Lexeme.exponentLength, if_neg hc]

/-- An exponent has a sign or none, and at least one digit. -/
lemma exponentLength_eq {mark : Char} {sign : Option Char} (hmark : mark = 'e' ∨ mark = 'E')
    (hsign : ∀ s ∈ sign, s = '-' ∨ s = '+')
    (hcs : sign = none → ∀ d ∈ cs.head?, ¬(d = '-' ∨ d = '+')) :
    Lexeme.exponentLength (mark :: (sign.toList ++ cs)) =
      if (cs.takeWhile Text.isDigit).length = 0 then 0
      else 1 + sign.toList.length + (cs.takeWhile Text.isDigit).length := by
  cases sign with
  | some s =>
    simp only [Option.toList_some, List.cons_append, List.nil_append, Lexeme.exponentLength,
      if_pos hmark, if_pos (hsign s rfl)]
    split
    · next h => rw [if_pos h]
    · next h => rw [if_neg h, List.length_singleton]
  | none =>
    cases cs with
    | nil => simp [Lexeme.exponentLength]
    | cons d cs =>
      simp only [Option.toList_none, List.nil_append, Lexeme.exponentLength, if_pos hmark,
        if_neg (hcs rfl d rfl)]
      split
      · next h => rw [if_pos h]
      · next h => rw [if_neg h, List.length_nil]

/-- The digits of an exponent are read to their end. -/
lemma exponentLength_chars_append (e : Exponent) (rest : List Char) :
    Lexeme.exponentLength (e.chars ++ rest) =
      e.chars.length + (rest.takeWhile Text.isDigit).length := by
  obtain ⟨mark, sign, digits, hmark, hsign, hne, hdigits⟩ := e
  obtain ⟨d, ds, rfl⟩ := List.exists_cons_of_ne_nil hne
  have hd : sign = none → ∀ e ∈ ((d :: ds) ++ rest).head?, ¬(e = '-' ∨ e = '+') := by
    rintro - e ⟨⟩ (rfl | rfl) <;> exact absurd (hdigits _ List.mem_cons_self) (by decide)
  have hrun : ((d :: ds) ++ rest).takeWhile Text.isDigit =
      (d :: ds) ++ rest.takeWhile Text.isDigit := List.takeWhile_append_of_pos hdigits
  rw [Exponent.chars, List.cons_append, List.append_assoc, exponentLength_eq hmark hsign hd, hrun,
    if_neg (by simp)]
  simp only [List.length_cons, List.length_append]
  omega

/-- An exponent is read to its end. -/
lemma exponentLength_append (e : Exponent) (h : AtGap rest) :
    Lexeme.exponentLength (e.chars ++ rest) = e.chars.length := by
  have hstop := takeWhile_append_eq (List.forall_mem_nil _) (h.not_of fun _ => isDigit_of_startsGap)
  rw [List.nil_append] at hstop
  rw [exponentLength_chars_append, hstop, List.length_nil, Nat.add_zero]

lemma exponentValue_chars (e : Exponent) : Lexeme.exponentValue e.chars = e.value := by
  obtain ⟨mark, sign, digits, hmark, hsign, hne, hdigits⟩ := e
  obtain ⟨d, ds, rfl⟩ := List.exists_cons_of_ne_nil hne
  cases sign with
  | some s =>
    rcases hsign s rfl with rfl | rfl
    · simp [Exponent.chars, Exponent.value, Lexeme.exponentValue, Text.digitsValue_eq_number]
    · simp [Exponent.chars, Exponent.value, Lexeme.exponentValue, Text.digitsValue_eq_number]
  | none =>
    have hminus : d ≠ '-' := by
      rintro rfl
      exact absurd (hdigits _ List.mem_cons_self) (by decide)
    have hplus : d ≠ '+' := by
      rintro rfl
      exact absurd (hdigits _ List.mem_cons_self) (by decide)
    simp [Exponent.chars, Exponent.value, Lexeme.exponentValue, Text.digitsValue_eq_number, hminus,
      hplus]

/-- Digits with nothing of a float behind them are an integer. -/
lemma floatParts?_digits (hcs : ∀ d ∈ cs, Text.isDigit d = true) (h : AtGap rest) :
    Lexeme.floatParts? (cs ++ rest) = none := by
  have hstop := h.not_of fun _ => isDigit_of_startsGap
  have hpoint : ∀ more, rest ≠ '.' :: more := by
    rintro more rfl
    exact absurd (h '.' rfl) (by decide)
  simp only [Lexeme.floatParts?, takeWhile_append_eq hcs hstop, dropWhile_append_eq hcs hstop,
    exponentLength_of_atGap h, or_true, if_true]

/-- The digits of a float with a point end at the point, at the exponent and at the end. -/
lemma floatParts?_pointed {whole fraction : List Char} (exponent : Option Exponent)
    (hw : ∀ d ∈ whole, Text.isDigit d = true) (hf : ∀ d ∈ fraction, Text.isDigit d = true)
    (hne : whole ≠ [] ∨ fraction ≠ []) (h : AtGap rest) :
    Lexeme.floatParts? (whole ++ '.' :: (fraction ++ exponent.elim [] Exponent.chars) ++ rest) =
      some (whole, true, fraction, exponent.elim [] Exponent.chars) := by
  rw [List.append_assoc, List.cons_append, List.append_assoc]
  have hpoint : ∀ c ∈ ('.' :: (fraction ++ (exponent.elim [] Exponent.chars ++ rest))).head?,
      Text.isDigit c = false := by
    rintro c ⟨⟩
    decide
  have htail : ∀ c ∈ (exponent.elim [] Exponent.chars ++ rest).head?, Text.isDigit c = false := by
    cases exponent with
    | none => exact h.not_of fun _ => isDigit_of_startsGap
    | some e =>
      rintro c ⟨⟩
      rcases e.mark_fits with hm | hm <;> rw [hm] <;> decide
  have hexponent : (exponent.elim [] Exponent.chars ++ rest).take
      (Lexeme.exponentLength (exponent.elim [] Exponent.chars ++ rest)) =
        exponent.elim [] Exponent.chars := by
    cases exponent with
    | none => simp [exponentLength_of_atGap h]
    | some e => simp [exponentLength_append e h]
  have hsome : ¬(whole = [] ∧ fraction = []) := by
    rintro ⟨hw, hf⟩
    exact hne.elim (· hw) (· hf)
  simp only [Lexeme.floatParts?, takeWhile_append_eq hw hpoint, dropWhile_append_eq hw hpoint,
    takeWhile_append_eq hf htail, dropWhile_append_eq hf htail, if_neg hsome, hexponent]

lemma floatParts?_scaled {whole : List Char} (e : Exponent)
    (hw : ∀ d ∈ whole, Text.isDigit d = true) (hne : whole ≠ []) (h : AtGap rest) :
    Lexeme.floatParts? (whole ++ e.chars ++ rest) = some (whole, false, [], e.chars) := by
  rw [List.append_assoc]
  have hmark : Text.isDigit e.mark = false ∧ e.mark ≠ '.' := by
    rcases e.mark_fits with hm | hm <;> rw [hm] <;> decide
  have htail : ∀ c ∈ (e.chars ++ rest).head?, Text.isDigit c = false := by
    rintro c ⟨⟩
    exact hmark.1
  simp only [Lexeme.floatParts?, takeWhile_append_eq hw htail, dropWhile_append_eq hw htail,
    exponentLength_append e h, List.take_left]
  split
  · next more heq => exact absurd (List.cons.inj heq).1 hmark.2
  · rw [if_neg (by simp [hne, Exponent.chars])]

lemma floatValue_elim (whole fraction : List Char) (exponent : Option Exponent) :
    Lexeme.floatValue whole fraction (exponent.elim [] Exponent.chars) = Number.Decimal.toFloat
      ⟨Text.number (whole ++ fraction), exponent.elim 0 Exponent.value - fraction.length⟩ := by
  rw [Lexeme.floatValue, Text.digitsValue_eq_number]
  cases exponent with
  | none => rfl
  | some e => simp only [Option.elim_some, exponentValue_chars]

/-- A float is read as far as its parts go. -/
lemma piece_float {whole fraction exponent : List Char} {point : Bool}
    (hc : Text.isDigit c = true ∨ c = '.')
    (h : Lexeme.floatParts? (c :: (cs ++ rest)) = some (whole, point, fraction, exponent))
    (hlen : whole.length + point.toNat + fraction.length + exponent.length = cs.length + 1) :
    piece c (cs ++ rest) =
      (.lexeme (.float (Lexeme.floatValue whole fraction exponent)), cs.length) := by
  have hnumber : piece c (cs ++ rest) = numberPiece c (cs ++ rest) := by
    rcases hc with hc | rfl
    · exact piece_digit hc
    · exact piece_eq_numberPiece (by decide) (by decide) (by decide)
  rw [hnumber]
  simp only [numberPiece, h, hlen, Nat.add_sub_cancel]

/-- An integer of not too many digits is read to its end. -/
lemma piece_int (hcs : ∀ d ∈ c :: cs, d.isDigit = true) (hlen : (c :: cs).length ≤ 4300)
    (h : AtGap rest) : piece c (cs ++ rest) =
      (.lexeme (.int (Nat.ofDigits 10 ((c :: cs).map fun d => d.toNat - '0'.toNat).reverse)),
        cs.length) := by
  have hdigits : ∀ d ∈ c :: cs, Text.isDigit d = true := fun d hd =>
    Text.isDigit_of_ascii (hcs d hd)
  have hc := hdigits c List.mem_cons_self
  have hrun := takeWhile_append_eq (fun d hd => hdigits d (List.mem_cons_of_mem c hd))
    (h.not_of fun _ => isDigit_of_startsGap)
  have hfloat : Lexeme.floatParts? (c :: (cs ++ rest)) = none := floatParts?_digits hdigits h
  have hvalue : Text.number (c :: cs) =
      Nat.ofDigits 10 ((c :: cs).map fun d => d.toNat - '0'.toNat).reverse := by
    rw [Text.number, List.map_congr_left fun d hd => ?_]
    rw [Text.digitValue?_of_ascii (hcs d hd)]
    rfl
  rw [piece_digit hc]
  simp only [numberPiece, hfloat, hc, if_true, hrun]
  rw [if_neg (show ¬maxDigits < _ from Nat.not_lt.mpr hlen), Text.digitsValue_eq_number, hvalue]
  rfl

/-! ## Symbols -/

/-- No float starts with something else than a digit or a point, nor with a point alone. -/
lemma floatParts?_of_not_digit (hc : Text.isDigit c = false)
    (hpoint : c = '.' → ∀ d ∈ rest.head?, Text.isDigit d = false) :
    Lexeme.floatParts? (c :: rest) = none := by
  by_cases h : c = '.'
  · have hrun : ([] ++ rest).takeWhile Text.isDigit = [] :=
      takeWhile_append_eq (fun _ hd => nomatch hd) (hpoint h)
    rw [List.nil_append] at hrun
    subst h
    simp [Lexeme.floatParts?, hc, hrun]
  · simp [Lexeme.floatParts?, hc, h]

/-- The characters that start a symbol and nothing else, unless a digit follows a point. -/
structure StartsSymbol (c : Char) : Prop where
  not_gap : startsGap c = false
  not_name : Lexeme.isNameStart c = false
  not_quote : c ≠ '"'
  not_digit : Text.isDigit c = false

lemma StartsSymbol.piece_eq (hc : StartsSymbol c)
    (hpoint : c = '.' → ∀ d ∈ rest.head?, Text.isDigit d = false) :
    piece c rest = symbolPiece c rest := by
  rw [piece_eq_numberPiece hc.not_gap hc.not_name hc.not_quote]
  simp [numberPiece, floatParts?_of_not_digit hc.not_digit hpoint, hc.not_digit]

/-- A symbol has one character, which forms no pair with what separates lexemes, or two. -/
lemma spelling_symbol (s : Symbol) :
    (∃ c, s.spelling.toList = [c] ∧ StartsSymbol c ∧ c ≠ '.' ∧ Lexeme.symbolSingle? c = some s ∧
      ∀ d, startsGap d = true → Lexeme.symbolPair? c d = none) ∨
    ∃ c d, s.spelling.toList = [c, d] ∧ StartsSymbol c ∧ Text.isDigit d = false ∧
      Lexeme.symbolPair? c d = some s := by
  cases s <;> first
    | exact .inl ⟨_, rfl, by constructor <;> decide, by decide, rfl, fun d hd => by
        rcases eq_of_startsGap hd with rfl | rfl | rfl | rfl <;> rfl⟩
    | exact .inr ⟨_, _, rfl, by constructor <;> decide, by decide, rfl⟩

lemma piece_symbol (s : Symbol) (h : AtGap rest) : ∃ c cs, s.spelling.toList = c :: cs ∧
    piece c (cs ++ rest) = (.lexeme (.symbol s), cs.length) := by
  rcases spelling_symbol s with ⟨c, hs, hc, hpoint, hsingle, hpair⟩ | ⟨c, d, hs, hc, hd, hpair⟩
  · refine ⟨c, [], hs, ?_⟩
    have hnone : rest.head?.bind (Lexeme.symbolPair? c) = none := by
      cases rest with
      | nil => rfl
      | cons d rest => exact hpair d (h d rfl)
    rw [List.nil_append, hc.piece_eq fun heq => absurd heq hpoint]
    simp only [symbolPiece, hnone, hsingle, List.length_nil]
  · refine ⟨c, [d], hs, ?_⟩
    have hnext : ∀ x ∈ ([d] ++ rest).head?, Text.isDigit x = false := by
      rintro x ⟨⟩
      exact hd
    rw [hc.piece_eq fun _ => hnext]
    simp [symbolPiece, hpair]

end Token

namespace Spelling

/-- A lexeme that something else follows only after a gap is read as it is written. -/
theorem piece_chars (s : Spelling) {rest : List Char} (h : AtGap rest) :
    ∃ c cs l, s.chars = c :: cs ∧ Token.piece c (cs ++ rest) = (.lexeme l, cs.length) ∧
      s.Denotes l := by
  cases s with
  | name first cs hfirst hcs hfree =>
    refine ⟨first, cs, _, rfl, ?_, rfl⟩
    rw [Token.piece_word hfirst hcs h, Token.ofWord_of_not_reserved hfree]
  | keyword k =>
    obtain ⟨c, cs, hk, hc, hcs⟩ := Token.spelling_keyword k
    refine ⟨c, cs, _, hk, ?_, rfl⟩
    rw [Token.piece_word hc hcs h, ← hk, Token.ofWord_spelling]
  | int digits hne hdigits hlen =>
    obtain ⟨c, cs, rfl⟩ := List.exists_cons_of_ne_nil hne
    exact ⟨c, cs, _, rfl, Token.piece_int hdigits hlen h, rfl⟩
  | pointed whole fraction exponent hw hf hne =>
    have hparts := Token.floatParts?_pointed exponent hw hf hne h
    obtain ⟨c, cs, hchars⟩ := List.exists_cons_of_ne_nil
      (show whole ++ '.' :: (fraction ++ exponent.elim [] Exponent.chars) ≠ [] by simp)
    have hc : Text.isDigit c = true ∨ c = '.' := by
      cases whole with
      | nil => exact .inr (List.cons.inj hchars).1.symm
      | cons d whole =>
        rw [← (List.cons.inj hchars).1]
        exact .inl (hw d List.mem_cons_self)
    have hlen := congrArg List.length hchars
    simp only [List.length_append, List.length_cons] at hlen
    rw [hchars, List.cons_append] at hparts
    refine ⟨c, cs, _, hchars, Token.piece_float hc hparts (by rw [Bool.toNat_true]; omega), _, rfl, ?_⟩
    rw [Token.floatValue_elim]
    exact Number.Decimal.isNearest_toFloat ⟨_, _⟩
  | scaled whole e hw hne =>
    have hparts := Token.floatParts?_scaled e hw hne h
    obtain ⟨d, whole, rfl⟩ := List.exists_cons_of_ne_nil hne
    rw [List.cons_append, List.cons_append] at hparts
    have hc : Text.isDigit d = true := hw d List.mem_cons_self
    refine ⟨d, whole ++ e.chars, _, rfl, Token.piece_float (.inl hc) hparts (by simp; omega), _, rfl, ?_⟩
    have hvalue := Token.floatValue_elim (d :: whole) [] (some e)
    simp only [Option.elim_some, List.append_nil, List.length_nil, Nat.cast_zero, Int.sub_zero] at hvalue
    rw [hvalue]
    exact Number.Decimal.isNearest_toFloat ⟨_, _⟩
  | symbol s =>
    obtain ⟨c, cs, hchars, hpiece⟩ := Token.piece_symbol s h
    exact ⟨c, cs, _, hchars, hpiece, rfl⟩
  | text s hs =>
    refine ⟨'"', escape s ++ ['"'], _, rfl, ?_, rfl⟩
    rw [List.append_assoc, List.singleton_append, Token.piece_text s hs rest]

end Spelling

end MatScript
