import MatScript.Proofs.TextLiterals

/-! Scanning cuts a text into tokens and what stands between them, without a gap or an overlap. The
scanner tries its rules in a fixed order and takes the first that applies, but what it takes is the
longest word at its place that any rule for tokens describes, text literals apart. -/
namespace MatScript

/-! ## Tiles -/

/-- What is passed over between tokens. -/
inductive Skipped where
  | blanks
  | newlines
  | comment

def Skipped.pattern : Skipped → Pattern
  | blanks => .some (.one fun c => c = ' ' ∨ c = '\t')
  | newlines => .some (.one (· = '\n'))
  | comment => .seq (.one (· = '#')) (.many (.one (· ≠ '\n')))

/-- No word of the pattern at the start of a text is longer than `w`. -/
def Longest (p : Pattern) (cs w : List Char) : Prop :=
  ∀ other, other <+: cs → p.Matches other → other.length ≤ w.length

/-- A part of a text. -/
inductive Tile where
  | token (rule : Rule) (chars : List Char)
  | skipped (kind : Skipped) (chars : List Char)

namespace Tile

def chars : Tile → List Char
  | token _ w => w
  | skipped _ w => w

/-- A tile fits before `left` if its rule describes it and no rule a longer part of the text; a text
literal ends where its pattern first matches. -/
def Fits (left : List Char) : Tile → Prop
  | token rule w => rule.Matches w ∧
    if rule = .text then (rule.pattern.ends (w ++ left)).head? = some left
    else ∀ other : Rule, Longest other.pattern (w ++ left) w
  | skipped kind w => kind.pattern.Matches w ∧ Longest kind.pattern (w ++ left) w

/-- Every tile fits before the later ones and the rest of the text. -/
def Fit (rest : List Char) : List Tile → Prop
  | [] => True
  | tile :: tiles => tile.Fits (tiles.flatMap chars ++ rest) ∧ Fit rest tiles

/-- The lexemes that the tiles are, and where they start if the first tile starts at `offset`. -/
def placed (offset : Nat) : List Tile → List (Lexeme × Nat)
  | [] => []
  | token rule w :: tiles => (rule.lexeme w, offset) :: placed (offset + w.length) tiles
  | skipped _ w :: tiles => placed (offset + w.length) tiles

end Tile

/-- Neither a token nor anything that is passed over starts here. -/
def Unmatched (cs : List Char) : Prop :=
  ∀ w, w <+: cs → (∀ rule : Rule, ¬rule.Matches w) ∧ ∀ kind : Skipped, ¬kind.pattern.Matches w

/-- The longest token here is an integer of too many digits. -/
def Overlong (digits : Nat) (cs : List Char) : Prop :=
  4300 < digits ∧ ∃ w, w <+: cs ∧ w.length = digits ∧ Rule.int.Matches w ∧
    ∀ rule : Rule, Longest rule.pattern cs w

/-- What stands where scanning ends. -/
def EndsAt (rest : List Char) : Token.Ending → Prop
  | .finished => rest = []
  | .illegal c => rest.head? = some c ∧ Unmatched rest
  | .tooLong digits => Overlong digits rest

/-! ## Runs of characters -/

section

variable {first belongs : Char → Bool} {c : Char} {cs w rest : List Char}

lemma length_le_takeWhile (hw : w <+: cs) (h : ∀ d ∈ w, belongs d = true) :
    w.length ≤ (cs.takeWhile belongs).length := by
  obtain ⟨rest, rfl⟩ := hw
  rw [List.takeWhile_append_of_pos h, List.length_append]
  exact Nat.le_add_right _ _

lemma take_length_takeWhile (belongs : Char → Bool) (cs : List Char) :
    cs.take (cs.takeWhile belongs).length = cs.takeWhile belongs :=
  (List.prefix_iff_eq_take.1 (List.takeWhile_prefix belongs)).symm

/-- A pattern of one character and a run of others takes the whole run. -/
lemma longest_run : Longest (.seq (.one first) (.many (.one belongs))) (c :: rest)
    (c :: rest.takeWhile belongs) := by
  intro other hother hmatches
  obtain ⟨d, ds, rfl, -, hds⟩ := Pattern.matches_one_many_one.1 hmatches
  exact Nat.succ_le_succ (length_le_takeWhile (List.cons_prefix_cons.1 hother).2 hds)

lemma first_of_prefix_cons (h : (Pattern.seq (.one first) (.many (.one belongs))).Matches w)
    (hw : w <+: c :: rest) : first c = true := by
  obtain ⟨d, ds, rfl, hd, -⟩ := Pattern.matches_one_many_one.1 h
  rwa [(List.cons_prefix_cons.1 hw).1] at hd

lemma matches_run (hc : first c = true) :
    (Pattern.seq (.one first) (.many (.one belongs))).Matches (c :: rest.takeWhile belongs) :=
  Pattern.matches_one_many_one.2 ⟨c, _, rfl, hc, fun _ => List.mem_takeWhile_imp⟩

end

/-! ## How tokens start -/

namespace Rule

variable {rule : Rule} {c : Char} {cs w rest : List Char}

/-- The characters with which the words of a rule start. -/
def Starts : Rule → Char → Prop
  | word, c => Lexeme.isNameStart c = true
  | text, c => c = '"'
  | float, c => Text.isDigit c = true ∨ c = '.'
  | int, c => Text.isDigit c = true
  | symbol s, c => s.spelling.toList.head? = some c

lemma starts_of_matches (h : rule.Matches w) : ∃ c cs, w = c :: cs ∧ rule.Starts c := by
  cases rule with
  | word =>
    obtain ⟨c, cs, rfl, hc, -⟩ := Pattern.matches_one_many_one.1 h
    exact ⟨c, cs, rfl, hc⟩
  | text =>
    obtain ⟨u, v, rfl, hu, -⟩ := h
    exact ⟨'"', v, by rw [Pattern.matches_char.1 hu, List.singleton_append], rfl⟩
  | float =>
    rcases matches_float.1 h with ⟨whole, fraction, e, rfl, hwhole, -, -⟩ |
      ⟨whole, e, rfl, hwhole, hne⟩
    · cases whole with
      | nil => exact ⟨'.', _, rfl, .inr rfl⟩
      | cons d whole => exact ⟨d, _, rfl, .inl (hwhole d List.mem_cons_self)⟩
    · obtain ⟨d, whole, rfl⟩ := List.exists_cons_of_ne_nil hne
      exact ⟨d, _, rfl, .inl (hwhole d List.mem_cons_self)⟩
  | int =>
    obtain ⟨c, cs, rfl, hc, -⟩ := Pattern.matches_one_many_one.1 h
    exact ⟨c, cs, rfl, hc⟩
  | symbol s =>
    have hw := Pattern.matches_word.1 h
    rcases Token.spelling_symbol s with ⟨c, hs, -⟩ | ⟨c, d, hs, -⟩
    · exact ⟨c, [], hw.trans hs, by rw [Starts, hs]; rfl⟩
    · exact ⟨c, [d], hw.trans hs, by rw [Starts, hs]; rfl⟩

/-- A word at the start of a text starts as the text does. -/
lemma starts_of_prefix_cons (h : rule.Matches w) (hw : w <+: c :: rest) : rule.Starts c := by
  obtain ⟨d, ds, rfl, hd⟩ := starts_of_matches h
  rwa [(List.cons_prefix_cons.1 hw).1] at hd

lemma startsSymbol_of_starts {s : Symbol} (h : (symbol s).Starts c) : Token.StartsSymbol c := by
  rw [Starts] at h
  rcases Token.spelling_symbol s with ⟨d, hs, hd, -⟩ | ⟨d, e, hs, hd, -⟩
  · rw [hs] at h
    exact Option.some.inj h ▸ hd
  · rw [hs] at h
    exact Option.some.inj h ▸ hd

/-- Only words start as words do. -/
lemma eq_word_of_starts (h : rule.Starts c) (hc : Lexeme.isNameStart c = true) : rule = word := by
  cases rule with
  | word => rfl
  | text => exact absurd hc (by rw [h]; decide)
  | float =>
    rcases h with hd | rfl
    · exact absurd hc (by rw [Token.isNameStart_of_isDigit hd]; decide)
    · exact absurd hc (by decide)
  | int => exact absurd hc (by rw [Token.isNameStart_of_isDigit h]; decide)
  | symbol s => exact absurd hc (by rw [(startsSymbol_of_starts h).not_name]; decide)

/-- Only texts start with a quote. -/
lemma eq_text_of_starts (h : rule.Starts '"') : rule = text := by
  cases rule with
  | word => exact absurd h (show ¬Lexeme.isNameStart '"' = true by decide)
  | text => rfl
  | float => exact absurd h (show ¬(Text.isDigit '"' = true ∨ '"' = '.') by decide)
  | int => exact absurd h (show ¬Text.isDigit '"' = true by decide)
  | symbol s => exact absurd rfl (startsSymbol_of_starts h).not_quote

end Rule

namespace Token

variable {c d : Char} {cs w rest left : List Char}

/-! ## Floats -/

/-- Where an exponent is read, there is one. -/
lemma exists_exponent (cs : List Char) : Lexeme.exponentLength cs = 0 ∨
    ∃ (e : Exponent) (left : List Char),
      cs = e.chars ++ left ∧ Lexeme.exponentLength cs = e.chars.length := by
  rcases cs with - | ⟨mark, rest⟩
  · exact .inl rfl
  by_cases hmark : mark = 'e' ∨ mark = 'E'
  swap
  · exact .inl (by simp only [Lexeme.exponentLength, if_neg hmark])
  obtain ⟨sign, ds, rfl, hsign, hds⟩ : ∃ (sign : Option Char) (ds : List Char),
      rest = sign.toList ++ ds ∧ (∀ s ∈ sign, s = '-' ∨ s = '+') ∧
        (sign = none → ∀ d ∈ ds.head?, ¬(d = '-' ∨ d = '+')) := by
    by_cases hs : ∃ s ∈ rest.head?, s = '-' ∨ s = '+'
    · obtain ⟨s, hs, hsign⟩ := hs
      obtain ⟨ds, rfl⟩ := List.head?_eq_some_iff.1 hs
      exact ⟨some s, ds, rfl, by simpa using hsign, by simp⟩
    · exact ⟨none, rest, rfl, by simp, fun _ d hd hsign => hs ⟨d, hd, hsign⟩⟩
  rw [exponentLength_eq hmark hsign hds]
  split
  · exact .inl rfl
  · next hne =>
    refine .inr ⟨⟨mark, sign, ds.takeWhile Text.isDigit, hmark, hsign,
      List.length_eq_zero_iff.not.1 hne, fun _ => List.mem_takeWhile_imp⟩,
      ds.dropWhile Text.isDigit, ?_, ?_⟩
    · rw [Exponent.chars, List.cons_append, List.append_assoc, List.takeWhile_append_dropWhile]
    · simp only [Exponent.chars, List.length_cons, List.length_append]
      omega

/-- The exponent that is read, if there is one. -/
lemma exists_taken_exponent (cs : List Char) : ∃ (e : Option Exponent) (left : List Char),
    cs = e.elim [] Exponent.chars ++ left ∧
      cs.take (Lexeme.exponentLength cs) = e.elim [] Exponent.chars := by
  rcases exists_exponent cs with hzero | ⟨e, left, hcs, hlen⟩
  · exact ⟨none, cs, rfl, by rw [hzero]; rfl⟩
  · exact ⟨some e, left, hcs, by rw [hlen, hcs, List.take_left]; rfl⟩

variable {whole fraction exponent : List Char} {point : Bool}

/-- The parts of a float are those of a word of its rule, which has no others when it is read
alone. -/
lemma exists_float (h : Lexeme.floatParts? cs = some (whole, point, fraction, exponent)) :
    ∃ w left, cs = w ++ left ∧
      w.length = whole.length + point.toNat + fraction.length + exponent.length ∧
      Rule.float.Matches w ∧ Lexeme.floatParts? w = some (whole, point, fraction, exponent) := by
  have hwhole : ∀ d ∈ cs.takeWhile Text.isDigit, Text.isDigit d = true := fun _ =>
    List.mem_takeWhile_imp
  have hend : AtGap [] := nofun
  have hcs := List.takeWhile_append_dropWhile (p := Text.isDigit) (l := cs)
  simp only [Lexeme.floatParts?] at h
  split at h
  · next more hdrop =>
    have hfraction : ∀ d ∈ more.takeWhile Text.isDigit, Text.isDigit d = true := fun _ =>
      List.mem_takeWhile_imp
    have hmore := List.takeWhile_append_dropWhile (p := Text.isDigit) (l := more)
    obtain ⟨e, left, htail, htake⟩ := exists_taken_exponent (more.dropWhile Text.isDigit)
    split at h
    · cases h
    next hne =>
    cases h
    have hne := not_and_or.1 hne
    have hparts := floatParts?_pointed e hwhole hfraction hne hend
    rw [List.append_nil] at hparts
    refine ⟨_, left, ?_, ?_, Rule.matches_float.2 (.inl ⟨_, _, e, rfl, hwhole, hfraction, hne⟩), ?_⟩
    · rw [List.append_assoc, List.cons_append, List.append_assoc, ← htail, hmore, ← hdrop, hcs]
    · rw [htake]
      simp only [List.length_append, List.length_cons, Bool.toNat_true]
      omega
    · rw [hparts, htake]
  · split at h
    · cases h
    next hne =>
    cases h
    obtain ⟨hne, hlen⟩ := not_or.1 hne
    obtain ⟨e, left, hdrop, he⟩ := (exists_exponent (cs.dropWhile Text.isDigit)).resolve_left hlen
    have hparts := floatParts?_scaled e hwhole hne hend
    rw [List.append_nil] at hparts
    refine ⟨_, left, ?_, ?_, Rule.matches_float.2 (.inr ⟨_, e, rfl, hwhole, hne⟩), ?_⟩
    · rw [List.append_assoc, ← hdrop, hcs]
    · rw [he, hdrop, List.take_left]
      simp
    · rw [hparts, he, hdrop, List.take_left]

lemma length_le_taken_exponent (e : Exponent) (rest : List Char) : e.chars.length ≤
    ((e.chars ++ rest).take (Lexeme.exponentLength (e.chars ++ rest))).length := by
  rw [exponentLength_chars_append, List.length_take, List.length_append]
  omega

lemma exponent_not_digit (e : Exponent) (rest : List Char) :
    ∀ c ∈ (e.chars ++ rest).head?, Text.isDigit c = false := by
  rintro c ⟨⟩
  rcases e.mark_fits with hm | hm <;> rw [hm] <;> decide

/-- The digits behind a point and an exponent are no longer than what is read there. -/
lemma length_le_taken_fraction (e : Option Exponent)
    (hfraction : ∀ d ∈ fraction, Text.isDigit d = true)
    (hcs : cs = fraction ++ (e.elim [] Exponent.chars ++ rest)) :
    fraction.length + (e.elim [] Exponent.chars).length ≤ (cs.takeWhile Text.isDigit).length +
      ((cs.dropWhile Text.isDigit).take
        (Lexeme.exponentLength (cs.dropWhile Text.isDigit))).length := by
  subst hcs
  cases e with
  | none =>
    have hrun := length_le_takeWhile (List.prefix_append fraction ([] ++ rest)) hfraction
    exact Nat.le_trans hrun (Nat.le_add_right _ _)
  | some e =>
    have hstop := exponent_not_digit e rest
    rw [Option.elim_some, takeWhile_append_eq hfraction hstop, dropWhile_append_eq hfraction hstop]
    exact Nat.add_le_add_left (length_le_taken_exponent e rest) _

/-- Where a word of the rule for floats stands, a float is read, and none that is shorter. -/
lemma floatParts?_of_matches (h : Rule.float.Matches w) (hw : w <+: cs) :
    ∃ whole point fraction exponent,
      Lexeme.floatParts? cs = some (whole, point, fraction, exponent) ∧
      w.length ≤ whole.length + point.toNat + fraction.length + exponent.length := by
  obtain ⟨rest, rfl⟩ := hw
  rcases Rule.matches_float.1 h with ⟨whole, fraction, e, rfl, hwhole, hfraction, hne⟩ |
    ⟨whole, e, rfl, hwhole, hne⟩
  · rw [List.append_assoc, List.cons_append, List.append_assoc]
    generalize hmore : fraction ++ (e.elim [] Exponent.chars ++ rest) = more
    have hpoint : ∀ c ∈ ('.' :: more).head?, Text.isDigit c = false := by
      rintro c ⟨⟩
      decide
    have hrun : fraction.length ≤ (more.takeWhile Text.isDigit).length :=
      length_le_takeWhile ⟨_, hmore⟩ hfraction
    have hsome : ¬(whole = [] ∧ more.takeWhile Text.isDigit = []) := by
      rintro ⟨hnil, hnone⟩
      rw [hnone, List.length_nil, Nat.le_zero, List.length_eq_zero_iff] at hrun
      exact hne.elim (· hnil) (· hrun)
    have hlen := length_le_taken_fraction e hfraction hmore.symm
    simp only [Lexeme.floatParts?, takeWhile_append_eq hwhole hpoint,
      dropWhile_append_eq hwhole hpoint, if_neg hsome]
    refine ⟨_, _, _, _, rfl, ?_⟩
    simp only [List.length_append, List.length_cons, Bool.toNat_true]
    omega
  · rw [List.append_assoc]
    have hstop := exponent_not_digit e rest
    have hpoint : ∀ more, e.chars ++ rest ≠ '.' :: more := by
      intro more heq
      have hmark : e.mark = '.' := (List.cons.inj heq).1
      rcases e.mark_fits with hm | hm <;> exact absurd (hm.symm.trans hmark) (by decide)
    have hlen := length_le_taken_exponent e rest
    have hsome : ¬(whole = [] ∨ Lexeme.exponentLength (e.chars ++ rest) = 0) := by
      rw [exponentLength_chars_append]
      simp [hne, Exponent.chars]
    simp only [Lexeme.floatParts?, takeWhile_append_eq hwhole hstop,
      dropWhile_append_eq hwhole hstop, if_neg hsome]
    refine ⟨_, _, _, _, rfl, ?_⟩
    simp only [List.length_append, Bool.toNat_false, List.length_nil]
    omega

/-! ## Symbols -/

lemma spelling_of_symbolPair? {s : Symbol} (h : Lexeme.symbolPair? c d = some s) :
    s.spelling.toList = [c, d] := by
  unfold Lexeme.symbolPair? at h
  split at h <;> cases h <;> rfl

lemma spelling_of_symbolSingle? {s : Symbol} (h : Lexeme.symbolSingle? c = some s) :
    s.spelling.toList = [c] := by
  unfold Lexeme.symbolSingle? at h
  split at h <;> cases h <;> rfl

/-- A symbol at the start of a text has the first character or the first two. -/
lemma symbol_of_prefix_cons {s : Symbol} (h : (Rule.symbol s).Matches w) (hw : w <+: c :: rest) :
    w.length = 1 ∧ Lexeme.symbolSingle? c = some s ∨
      w.length = 2 ∧ rest.head?.bind (Lexeme.symbolPair? c) = some s := by
  obtain rfl := Pattern.matches_word.1 h
  rcases spelling_symbol s with ⟨d, hs, -, -, hsingle, -⟩ | ⟨d, e, hs, -, -, hpair⟩
  · rw [hs] at hw ⊢
    rw [← (List.cons_prefix_cons.1 hw).1]
    exact .inl ⟨rfl, hsingle⟩
  · rw [hs] at hw ⊢
    obtain ⟨rfl, left, rfl⟩ := List.cons_prefix_cons.1 hw
    exact .inr ⟨rfl, hpair⟩

/-- Where no word, text or number starts, there is at most a symbol. -/
lemma exists_symbol {rule : Rule} (hname : Lexeme.isNameStart c = false) (hquote : c ≠ '"')
    (hdigit : Text.isDigit c = false) (hfloat : Lexeme.floatParts? (c :: rest) = none)
    (h : rule.Matches w) (hw : w <+: c :: rest) : ∃ s, rule = .symbol s := by
  have hstarts := Rule.starts_of_prefix_cons h hw
  cases rule with
  | word => exact absurd hstarts (by rw [Rule.Starts, hname]; decide)
  | text => exact absurd hstarts hquote
  | float =>
    obtain ⟨whole, point, fraction, exponent, hsome, -⟩ := floatParts?_of_matches h hw
    rw [hfloat] at hsome
    cases hsome
  | int => exact absurd hstarts (by rw [Rule.Starts, hdigit]; decide)
  | symbol s => exact ⟨s, rfl⟩

/-! ## Pieces -/

/-- What a piece says about the characters it takes and those behind it. -/
def Piece.Cuts (w left : List Char) : Piece → Prop
  | .blank => (Tile.skipped .blanks w).Fits left
  | .newline => (Tile.skipped .newlines w).Fits left
  | .comment => (Tile.skipped .comment w).Fits left
  | .lexeme l => ∃ rule : Rule, rule.lexeme w = l ∧ (Tile.token rule w).Fits left
  | .tooLong digits => Overlong digits (w ++ left)
  | .illegal => Unmatched (w ++ left)

/-- What stands between tokens is a run, and it is taken as a whole. -/
lemma fits_skipped {kind : Skipped} {first belongs : Char → Bool}
    (hkind : kind.pattern = .seq (.one first) (.many (.one belongs))) (hc : first c = true)
    (rest : List Char) :
    (Tile.skipped kind (c :: rest.take (rest.takeWhile belongs).length)).Fits
      (rest.drop (rest.takeWhile belongs).length) := by
  rw [Tile.Fits, List.cons_append, List.take_append_drop, take_length_takeWhile, hkind]
  exact ⟨matches_run hc, longest_run⟩

/-- A token fits if no word at its place is longer. -/
lemma fits_token {rule : Rule} {n : Nat} (hrule : rule ≠ .text)
    (hmatches : rule.Matches (c :: rest.take n)) (hn : n ≤ rest.length)
    (hlongest : ∀ (other : Rule) (w : List Char), other.Matches w → w <+: c :: rest →
      w.length ≤ n + 1) :
    (Tile.token rule (c :: rest.take n)).Fits (rest.drop n) := by
  rw [Tile.Fits, if_neg hrule, List.cons_append, List.take_append_drop]
  refine ⟨hmatches, fun other w hw hother => ?_⟩
  rw [List.length_cons, List.length_take_of_le hn]
  exact hlongest other w hother hw

lemma cuts_word (hc : Lexeme.isNameStart c = true) (rest : List Char) :
    (Piece.lexeme (.ofWord (c :: rest.takeWhile Lexeme.isNamePart))).Cuts
      (c :: rest.take (rest.takeWhile Lexeme.isNamePart).length)
      (rest.drop (rest.takeWhile Lexeme.isNamePart).length) := by
  refine ⟨.word, by rw [take_length_takeWhile]; rfl, fits_token (by decide) ?_ ?_ ?_⟩
  · rw [take_length_takeWhile]
    exact matches_run hc
  · exact (List.takeWhile_prefix _).length_le
  · intro other w hother hw
    obtain rfl := Rule.eq_word_of_starts (Rule.starts_of_prefix_cons hother hw) hc
    exact longest_run w hw hother

lemma startsGap_of_prefix_cons {kind : Skipped} (h : kind.pattern.Matches w)
    (hw : w <+: c :: rest) : startsGap c = true := by
  cases kind with
  | blanks => rcases of_decide_eq_true (first_of_prefix_cons h hw) with rfl | rfl <;> rfl
  | newlines =>
    obtain rfl := of_decide_eq_true (first_of_prefix_cons h hw)
    rfl
  | comment =>
    obtain rfl := of_decide_eq_true (first_of_prefix_cons h hw)
    rfl

lemma unmatched_of_rules (hgap : startsGap c = false)
    (h : ∀ (rule : Rule) (w : List Char), rule.Matches w → ¬w <+: c :: rest) :
    Unmatched (c :: rest) := by
  refine fun w hw => ⟨fun rule hrule => h rule w hrule hw, fun kind hkind => ?_⟩
  rw [startsGap_of_prefix_cons hkind hw] at hgap
  cases hgap

lemma cuts_quote (rest : List Char) : (piece '"' rest).1.Cuts ('"' :: rest.take (piece '"' rest).2)
    (rest.drop (piece '"' rest).2) := by
  by_cases hquote : '"' ∈ rest
  · obtain ⟨inner, more, hcloses⟩ := exists_closesAt hquote
    obtain ⟨hpiece, htake, hdrop⟩ := piece_of_closesAt hcloses
    have hends := ends_of_closesAt hcloses
    obtain ⟨w, hw, hmatches⟩ := Pattern.mem_ends.1 (List.mem_of_head? hends)
    have hsplit : '"' :: rest = '"' :: (inner ++ ['"']) ++ more := by simp [hcloses.1]
    obtain rfl : '"' :: (inner ++ ['"']) = w := List.append_cancel_right (hsplit.symm.trans hw)
    rw [hpiece]
    simp only [htake, hdrop]
    refine ⟨.text, by simp [Rule.lexeme], hmatches, ?_⟩
    rw [if_pos rfl, ← hsplit, hends]
  · rw [piece_quote_none (textLength?_eq_none hquote)]
    refine unmatched_of_rules (by decide) fun rule w hrule hw => ?_
    obtain rfl := Rule.eq_text_of_starts (Rule.starts_of_prefix_cons hrule hw)
    obtain ⟨left, hleft⟩ := hw
    have hmem : left ∈ Rule.text.pattern.ends ('"' :: rest) :=
      Pattern.mem_ends.2 ⟨w, hleft.symm, hrule⟩
    rw [ends_text, closings_of_not_mem hquote] at hmem
    cases hmem

lemma two_le_of_float (h : Rule.float.Matches w) : 2 ≤ w.length := by
  rcases Rule.matches_float.1 h with ⟨whole, fraction, e, rfl, -, -, hne⟩ | ⟨whole, e, rfl, -, hne⟩
  · simp only [← List.length_pos_iff] at hne
    simp only [List.length_append, List.length_cons]
    omega
  · rw [← List.length_pos_iff] at hne
    simp only [List.length_append, Exponent.chars, List.length_cons]
    omega

lemma whole_of_floatParts? (h : Lexeme.floatParts? cs = some (whole, point, fraction, exponent)) :
    whole = cs.takeWhile Text.isDigit := by
  simp only [Lexeme.floatParts?] at h
  split at h <;> split at h <;> cases h <;> rfl

lemma cuts_float (h : Lexeme.floatParts? (c :: rest) = some (whole, point, fraction, exponent)) :
    (Piece.lexeme (.float (Lexeme.floatValue whole fraction exponent))).Cuts
      (c :: rest.take (whole.length + point.toNat + fraction.length + exponent.length - 1))
      (rest.drop (whole.length + point.toNat + fraction.length + exponent.length - 1)) := by
  obtain ⟨w, left, hsplit, hlen, hmatches, hparts⟩ := exists_float h
  obtain ⟨d, ds, rfl, hstarts⟩ := Rule.starts_of_matches hmatches
  rw [List.cons_append] at hsplit
  obtain ⟨rfl, rfl⟩ := List.cons.inj hsplit
  have htwo := two_le_of_float hmatches
  rw [← hlen, List.length_cons, Nat.add_sub_cancel]
  refine ⟨.float, ?_, fits_token (by decide) ?_ ?_ ?_⟩
  · rw [List.take_left]
    simp only [Rule.lexeme, hparts]
  · rwa [List.take_left]
  · simp
  · intro other w hother hw
    cases other with
    | word => cases Rule.eq_word_of_starts hstarts (Rule.starts_of_prefix_cons hother hw)
    | text =>
      obtain rfl : c = '"' := Rule.starts_of_prefix_cons hother hw
      cases Rule.eq_text_of_starts hstarts
    | float =>
      obtain ⟨_, _, _, _, hsome, hle⟩ := floatParts?_of_matches hother hw
      rw [h] at hsome
      cases hsome
      rwa [← hlen] at hle
    | int =>
      -- An integer here goes no further than the whole part of the float.
      have hle := length_le_takeWhile hw (Pattern.matches_some_one.1 hother).2
      rw [← whole_of_floatParts? h] at hle
      rw [List.length_cons] at hlen
      omega
    | symbol s =>
      rw [List.length_cons] at htwo
      rcases symbol_of_prefix_cons hother hw with ⟨hone, -⟩ | ⟨htwo, -⟩ <;> omega

lemma longest_int (hc : Text.isDigit c = true) (hfloat : Lexeme.floatParts? (c :: rest) = none)
    {other : Rule} (hother : other.Matches w) (hw : w <+: c :: rest) :
    w.length ≤ (rest.takeWhile Text.isDigit).length + 1 := by
  have hstarts := Rule.starts_of_prefix_cons hother hw
  cases other with
  | word => exact absurd hstarts (by rw [Rule.Starts, isNameStart_of_isDigit hc]; decide)
  | text =>
    obtain rfl : c = '"' := hstarts
    exact absurd hc (by decide)
  | float =>
    obtain ⟨whole, point, fraction, exponent, hsome, -⟩ := floatParts?_of_matches hother hw
    rw [hfloat] at hsome
    cases hsome
  | int => exact longest_run w hw hother
  | symbol s => exact absurd hc (by rw [(Rule.startsSymbol_of_starts hstarts).not_digit]; decide)

lemma cuts_symbol (hgap : startsGap c = false) (hname : Lexeme.isNameStart c = false)
    (hquote : c ≠ '"') (hdigit : Text.isDigit c = false)
    (hfloat : Lexeme.floatParts? (c :: rest) = none) :
    (symbolPiece c rest).1.Cuts (c :: rest.take (symbolPiece c rest).2)
      (rest.drop (symbolPiece c rest).2) := by
  have hsymbol : ∀ (other : Rule) (w : List Char), other.Matches w → w <+: c :: rest →
      ∃ s, w.length = 1 ∧ Lexeme.symbolSingle? c = some s ∨
        w.length = 2 ∧ rest.head?.bind (Lexeme.symbolPair? c) = some s := by
    intro other w hother hw
    obtain ⟨s, rfl⟩ := exists_symbol hname hquote hdigit hfloat hother hw
    exact ⟨s, symbol_of_prefix_cons hother hw⟩
  rw [symbolPiece]
  cases hpair : rest.head?.bind (Lexeme.symbolPair? c) with
  | some s =>
    obtain ⟨d, hhead, hs⟩ := Option.bind_eq_some_iff.1 hpair
    obtain ⟨more, rfl⟩ := List.head?_eq_some_iff.1 hhead
    refine ⟨.symbol s, rfl, fits_token (by simp) ?_ (by simp) fun other w hother hw => ?_⟩
    · exact Pattern.matches_word.2 (spelling_of_symbolPair? hs).symm
    · change w.length ≤ 2
      obtain ⟨s, ⟨hone, -⟩ | ⟨htwo, -⟩⟩ := hsymbol other w hother hw <;> omega
  | none =>
    cases hsingle : Lexeme.symbolSingle? c with
    | some s =>
      refine ⟨.symbol s, rfl, fits_token (by simp) ?_ (Nat.zero_le _) fun other w hother hw => ?_⟩
      · exact Pattern.matches_word.2 (spelling_of_symbolSingle? hsingle).symm
      · obtain ⟨s, ⟨hone, -⟩ | ⟨-, hs⟩⟩ := hsymbol other w hother hw
        · exact Nat.le_of_eq hone
        · rw [hpair] at hs
          cases hs
    | none =>
      refine unmatched_of_rules hgap fun other w hother hw => ?_
      obtain ⟨s, ⟨-, hs⟩ | ⟨-, hs⟩⟩ := hsymbol other w hother hw
      · rw [hsingle] at hs
        cases hs
      · rw [hpair] at hs
        cases hs

lemma cuts_number (hgap : startsGap c = false) (hname : Lexeme.isNameStart c = false)
    (hquote : c ≠ '"') : (numberPiece c rest).1.Cuts (c :: rest.take (numberPiece c rest).2)
      (rest.drop (numberPiece c rest).2) := by
  rw [numberPiece]
  split
  · next whole point fraction exponent hparts => exact cuts_float hparts
  next hfloat =>
  by_cases hc : Text.isDigit c = true
  · rw [if_pos hc]
    have hmatches : Rule.int.Matches (c :: rest.takeWhile Text.isDigit) := matches_run hc
    have hle : (rest.takeWhile Text.isDigit).length ≤ rest.length :=
      (List.takeWhile_prefix _).length_le
    simp only [List.length_cons, Nat.add_sub_cancel]
    split
    · next hmax =>
      refine ⟨hmax, c :: rest.takeWhile Text.isDigit, ?_, rfl, hmatches, ?_⟩
      · rw [take_length_takeWhile]
        exact List.prefix_append _ _
      · rw [List.cons_append, List.take_append_drop]
        exact fun rule w hw hrule => longest_int hc hfloat hrule hw
    · refine ⟨.int, ?_, fits_token (by decide) ?_ hle fun _ _ => longest_int hc hfloat⟩
      · rw [take_length_takeWhile, Text.digitsValue_eq_number]
        rfl
      · rwa [take_length_takeWhile]
  · rw [if_neg hc]
    exact cuts_symbol hgap hname hquote (Bool.not_eq_true _ ▸ hc) hfloat

/-- Every piece is cut off as the rules say, whichever rule was tried first. -/
theorem piece_cuts {pc : Piece} {n : Nat} (h : piece c rest = (pc, n)) :
    pc.Cuts (c :: rest.take n) (rest.drop n) := by
  suffices hcuts : (piece c rest).1.Cuts (c :: rest.take (piece c rest).2)
      (rest.drop (piece c rest).2) by
    rwa [h] at hcuts
  by_cases hblank : c = ' ' ∨ c = '\t'
  · rw [piece, if_pos hblank]
    exact fits_skipped rfl (decide_eq_true hblank) rest
  by_cases hname : Lexeme.isNameStart c = true
  · rw [piece, if_neg hblank, if_pos hname]
    exact cuts_word hname rest
  by_cases hnewline : c = '\n'
  · rw [hnewline, piece_newline]
    exact fits_skipped rfl rfl rest
  by_cases hcomment : c = '#'
  · rw [piece, if_neg hblank, if_neg hname, if_neg hnewline, if_pos hcomment]
    exact fits_skipped rfl (decide_eq_true hcomment) rest
  by_cases hquote : c = '"'
  · rw [hquote]
    exact cuts_quote rest
  have hgap : startsGap c = false := by simp_all [startsGap]
  have hname : Lexeme.isNameStart c = false := Bool.not_eq_true _ ▸ hname
  rw [piece_eq_numberPiece hgap hname hquote]
  exact cuts_number hgap hname hquote

/-! ## Texts -/

/-- Which tile a piece between tokens is. -/
lemma exists_skipped {pc : Piece} {w left : List Char} (hgap : pc.IsGap) (h : pc.Cuts w left) :
    ∃ kind, (Tile.skipped kind w).Fits left := by
  rcases hgap with rfl | rfl | rfl
  · exact ⟨.blanks, h⟩
  · exact ⟨.newlines, h⟩
  · exact ⟨.comment, h⟩

/-- The text is cut into tiles from its start to where scanning ends. -/
lemma scanFrom_tiles (p : Place) (cs : List Char) : ∃ (tiles : List Tile) (rest : List Char),
    cs = tiles.flatMap Tile.chars ++ rest ∧ Tile.Fit rest tiles ∧
      (scanFrom p cs).seen.1 = Tile.placed p.offset tiles ∧ EndsAt rest (scanFrom p cs).seen.2 := by
  fun_induction scanFrom p cs with
  | case1 p => exact ⟨[], [], rfl, trivial, rfl, rfl⟩
  | case2 p c rest more hpiece =>
    have hcuts := piece_cuts hpiece
    rw [Piece.Cuts, List.cons_append, List.take_append_drop] at hcuts
    exact ⟨[], c :: rest, rfl, trivial, rfl, rfl, hcuts⟩
  | case3 p c rest more digits hpiece =>
    have hcuts := piece_cuts hpiece
    rw [Piece.Cuts, List.cons_append, List.take_append_drop] at hcuts
    exact ⟨[], c :: rest, rfl, trivial, rfl, hcuts⟩
  | case4 p c rest more l hpiece next scan ih =>
    obtain ⟨rule, rfl, hfits⟩ := piece_cuts hpiece
    obtain ⟨tiles, left, hsplit, hfit, hplaced, hends⟩ := ih
    refine ⟨.token rule (c :: rest.take more) :: tiles, left, ?_, ⟨hsplit ▸ hfits, hfit⟩, ?_, hends⟩
    · rw [List.flatMap_cons, List.append_assoc, ← hsplit, Tile.chars, List.cons_append,
        List.take_append_drop]
    · exact congrArg ((rule.lexeme (c :: rest.take more), p.offset) :: ·) hplaced
  | case5 p c rest pc more hpiece next hillegal hlong hlexeme ih =>
    obtain ⟨kind, hfits⟩ := exists_skipped (Piece.isGap_of_ne hillegal hlong hlexeme)
      (piece_cuts hpiece)
    obtain ⟨tiles, left, hsplit, hfit, hplaced, hends⟩ := ih
    refine ⟨.skipped kind (c :: rest.take more) :: tiles, left, ?_, ⟨hsplit ▸ hfits, hfit⟩, hplaced,
      hends⟩
    rw [List.flatMap_cons, List.append_assoc, ← hsplit, Tile.chars, List.cons_append,
      List.take_append_drop]

/-- Scanning tiles the text: up to where it ends, the text consists of the tokens, each at its
offset and each the longest word that a rule describes there, and of what is passed over between
them. It ends at the end of the text, where no rule applies, or at an integer of too many digits. -/
theorem scan_tiles (line : Nat) (text : String) : ∃ (tiles : List Tile) (rest : List Char),
    text.toList = tiles.flatMap Tile.chars ++ rest ∧ Tile.Fit rest tiles ∧
      (scan line text).tokens.map (fun t => (t.lexeme, t.offset)) = Tile.placed 0 tiles ∧
      EndsAt rest (scan line text).ending :=
  scanFrom_tiles ⟨line, 1, 0⟩ text.toList

end Token

end MatScript
