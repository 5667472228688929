import MatScript.Proofs.Spelling

/-! Patterns of words, and the patterns of the tokens. Which words a pattern describes is one
question; which of them a matcher finds first, that tries one alternative after the other and takes
back what it tried last, is another, and both have the same answers only where the pattern leaves no
choice. -/
namespace MatScript

/-- Patterns of words. -/
inductive Pattern where
  | empty
  /-- One character of a class. -/
  | one (belongs : Char → Bool)
  | seq (p q : Pattern)
  | alt (p q : Pattern)
  /-- Any number of times. -/
  | many (p : Pattern)

namespace Pattern

/-- Whether a pattern describes a word. -/
def Matches : Pattern → List Char → Prop
  | empty, w => w = []
  | one belongs, w => ∃ c, w = [c] ∧ belongs c = true
  | seq p q, w => ∃ u v, w = u ++ v ∧ p.Matches u ∧ q.Matches v
  | alt p q, w => p.Matches w ∨ q.Matches w
  | many p, w => ∃ parts : List (List Char), w = parts.flatten ∧ ∀ u ∈ parts, p.Matches u

def char (c : Char) : Pattern := one (· = c)

/-- At least once. -/
def some (p : Pattern) : Pattern := seq p (many p)

def optional (p : Pattern) : Pattern := alt p empty

/-- One word. -/
def word (w : List Char) : Pattern := w.foldr (fun c p => seq (char c) p) empty

/-! ## Words of a pattern -/

variable {p q : Pattern} {belongs : Char → Bool} {w cs rest : List Char}

lemma matches_char {c : Char} : (char c).Matches w ↔ w = [c] := by
  simp [char, Matches]

lemma matches_many_one : (many (one belongs)).Matches w ↔ ∀ c ∈ w, belongs c = true := by
  constructor
  · rintro ⟨parts, rfl, hparts⟩ c hc
    obtain ⟨u, hu, hc⟩ := List.mem_flatten.1 hc
    obtain ⟨d, rfl, hd⟩ := hparts u hu
    rwa [List.mem_singleton.1 hc]
  · intro h
    refine ⟨w.map fun c => [c], ?_, fun u hu => ?_⟩
    · rw [← List.flatMap_def, List.flatMap_singleton']
    · obtain ⟨c, hc, rfl⟩ := List.mem_map.1 hu
      exact ⟨c, rfl, h c hc⟩

lemma matches_one_many_one {first : Char → Bool} :
    (seq (one first) (many (one belongs))).Matches w ↔
      ∃ c cs, w = c :: cs ∧ first c = true ∧ ∀ d ∈ cs, belongs d = true := by
  constructor
  · rintro ⟨u, v, rfl, ⟨c, rfl, hc⟩, hv⟩
    exact ⟨c, v, rfl, hc, matches_many_one.1 hv⟩
  · rintro ⟨c, cs, rfl, hc, hcs⟩
    exact ⟨[c], cs, rfl, ⟨c, rfl, hc⟩, matches_many_one.2 hcs⟩

lemma matches_some_one : (some (one belongs)).Matches w ↔ w ≠ [] ∧ ∀ c ∈ w, belongs c = true := by
  rw [some, matches_one_many_one]
  constructor
  · rintro ⟨c, cs, rfl, hc, hcs⟩
    exact ⟨List.cons_ne_nil c cs, List.forall_mem_cons.2 ⟨hc, hcs⟩⟩
  · rintro ⟨hne, hw⟩
    obtain ⟨c, cs, rfl⟩ := List.exists_cons_of_ne_nil hne
    exact ⟨c, cs, rfl, List.forall_mem_cons.1 hw⟩

lemma matches_optional : (optional p).Matches w ↔ p.Matches w ∨ w = [] := Iff.rfl

lemma matches_word : (word cs).Matches w ↔ w = cs := by
  induction cs generalizing w with
  | nil => rfl
  | cons c cs ih =>
    constructor
    · rintro ⟨u, v, rfl, hu, hv⟩
      rw [matches_char.1 hu, ih.1 hv, List.singleton_append]
    · rintro rfl
      exact ⟨[c], cs, rfl, matches_char.2 rfl, ih.2 rfl⟩

/-! ## Matching with choices -/

/-- What is left of a text after taking steps from it, one after another: first after as many as can
be taken, then after fewer. -/
def repeated (step : List Char → List (List Char)) (cs : List Char) : List (List Char) :=
  ((step cs).filter fun rest => rest.length < cs.length).attach.flatMap
    (fun rest => repeated step rest.1) ++ [cs]
  termination_by cs.length
  decreasing_by exact of_decide_eq_true (List.mem_filter.1 rest.2).2

lemma repeated_eq (step : List Char → List (List Char)) (cs : List Char) :
    repeated step cs = ((step cs).filter fun rest => rest.length < cs.length).flatMap
      (repeated step) ++ [cs] := by
  rw [repeated, List.flatMap_subtype fun _ _ => rfl, List.unattach_attach]

/-- What is left of a text after each way to match its start, in the order in which they are found:
the first alternative is tried before the second, and one more time before no more. -/
def ends : Pattern → List Char → List (List Char)
  | empty, cs => [cs]
  | one _, [] => []
  | one belongs, c :: cs => if belongs c then [cs] else []
  | seq p q, cs => (p.ends cs).flatMap q.ends
  | alt p q, cs => p.ends cs ++ q.ends cs
  | many p, cs => repeated p.ends cs

lemma mem_repeated {step : List Char → List (List Char)}
    (hstep : ∀ cs rest, rest ∈ step cs ↔ ∃ u, cs = u ++ rest ∧ p.Matches u) :
    rest ∈ repeated step cs ↔ ∃ u, cs = u ++ rest ∧ (many p).Matches u := by
  induction hn : cs.length using Nat.strong_induction_on generalizing cs with
  | _ n ih =>
    subst hn
    rw [repeated_eq, List.mem_append, List.mem_flatMap, List.mem_singleton]
    constructor
    · rintro (⟨left, hleft, hrest⟩ | rfl)
      · obtain ⟨hmem, hlt⟩ := List.mem_filter.1 hleft
        obtain ⟨u, rfl, hu⟩ := (hstep _ _).1 hmem
        obtain ⟨v, rfl, parts, rfl, hparts⟩ := (ih _ (of_decide_eq_true hlt) rfl).1 hrest
        exact ⟨u ++ parts.flatten, by rw [List.append_assoc], u :: parts, rfl,
          List.forall_mem_cons.2 ⟨hu, hparts⟩⟩
      · exact ⟨[], rfl, [], rfl, nofun⟩
    · rintro ⟨u, rfl, parts, rfl, hparts⟩
      induction parts with
      | nil => exact .inr rfl
      | cons v parts ihparts =>
        obtain ⟨hv, hlater⟩ := List.forall_mem_cons.1 hparts
        -- A step that passes nothing is not taken, but an empty part can be left out.
        cases v with
        | nil => exact ihparts hlater ih
        | cons c v =>
          have hshort : (parts.flatten ++ rest).length <
              (((c :: v) :: parts).flatten ++ rest).length := by simp
          refine .inl ⟨parts.flatten ++ rest, List.mem_filter.2 ⟨?_, decide_eq_true hshort⟩, ?_⟩
          · exact (hstep _ _).2 ⟨c :: v, by simp, hv⟩
          · exact (ih _ hshort rfl).2 ⟨parts.flatten, rfl, parts, rfl, hlater⟩

/-- The ways to match the start of a text are the words of the pattern at its start. -/
theorem mem_ends : rest ∈ p.ends cs ↔ ∃ w, cs = w ++ rest ∧ p.Matches w := by
  induction p generalizing cs rest with
  | empty => simp [ends, Matches, eq_comm]
  | one belongs =>
    cases cs with
    | nil => simp [ends, Matches]
    | cons c cs =>
      simp only [ends]
      constructor
      · intro h
        split at h
        · next hc => exact ⟨[c], by rw [List.mem_singleton.1 h, List.singleton_append], c, rfl, hc⟩
        · cases h
      · rintro ⟨_, hw, d, rfl, hd⟩
        obtain ⟨rfl, rfl⟩ := List.cons.inj hw
        rw [if_pos hd]
        exact List.mem_singleton.2 rfl
  | seq p q ihp ihq =>
    rw [ends, List.mem_flatMap]
    constructor
    · rintro ⟨left, hleft, hrest⟩
      obtain ⟨u, rfl, hu⟩ := ihp.1 hleft
      obtain ⟨v, rfl, hv⟩ := ihq.1 hrest
      exact ⟨u ++ v, by rw [List.append_assoc], u, v, rfl, hu, hv⟩
    · rintro ⟨_, rfl, u, v, rfl, hu, hv⟩
      exact ⟨v ++ rest, ihp.2 ⟨u, List.append_assoc u v rest, hu⟩, ihq.2 ⟨v, rfl, hv⟩⟩
  | alt p q ihp ihq =>
    rw [ends, List.mem_append, ihp, ihq, ← exists_or]
    exact exists_congr fun w => and_or_left.symm
  | many p ih => exact mem_repeated fun _ _ => ih

end Pattern

/-! ## Tokens -/

/-- The rules for tokens. -/
inductive Rule where
  | word
  | text
  | float
  | int
  | symbol (s : Symbol)
  deriving DecidableEq

namespace Rule

open Pattern

def digits : Pattern := Pattern.some (one Text.isDigit)

def exponent : Pattern :=
  seq (one fun c => c = 'e' || c = 'E') (seq (optional (one fun c => c = '-' || c = '+')) digits)

/-- One step inside a text literal: a backslash with a character of the same line, or a character
other than a quote. -/
def step : Pattern := alt (seq (char '\\') (one (· ≠ '\n'))) (one (· ≠ '"'))

def pattern : Rule → Pattern
  | word => seq (one Lexeme.isNameStart) (many (one Lexeme.isNamePart))
  | text => seq (char '"') (seq (many step) (char '"'))
  | float =>
    alt
      (seq
        (alt (seq digits (seq (char '.') (many (one Text.isDigit)))) (seq (char '.') digits))
        (optional exponent))
      (seq digits exponent)
  | int => digits
  | symbol s => Pattern.word s.spelling.toList

/-- The lexeme that a word is, if it is one by the rule. -/
def lexeme : Rule → List Char → Lexeme
  | word, w => .ofWord w
  | text, w => .text (String.ofList (Lexeme.unescape w.tail.dropLast))
  | float, w =>
    match Lexeme.floatParts? w with
    | .some (whole, _, fraction, exponent) => .float (Lexeme.floatValue whole fraction exponent)
    | none => .float 0
  | int, w => .int (Text.number w)
  | symbol s, _ => .symbol s

def Matches (r : Rule) (w : List Char) : Prop := r.pattern.Matches w

variable {w : List Char}

lemma matches_exponent : exponent.Matches w ↔ ∃ e : Exponent, w = e.chars := by
  constructor
  · rintro ⟨_, _, rfl, ⟨mark, rfl, hmark⟩, _, ds, rfl, hsign, hds⟩
    obtain ⟨hne, hds⟩ := matches_some_one.1 hds
    have hmark : mark = 'e' ∨ mark = 'E' := by simpa using hmark
    rcases hsign with ⟨s, rfl, hs⟩ | rfl
    · exact ⟨⟨mark, .some s, ds, hmark, by simpa using hs, hne, hds⟩, rfl⟩
    · exact ⟨⟨mark, none, ds, hmark, nofun, hne, hds⟩, rfl⟩
  · rintro ⟨⟨mark, sign, ds, hmark, hsign, hne, hds⟩, rfl⟩
    refine ⟨[mark], _, rfl, ⟨mark, rfl, by simpa using hmark⟩, sign.toList, ds, rfl, ?_,
      matches_some_one.2 ⟨hne, hds⟩⟩
    cases sign with
    | none => exact .inr rfl
    | some s => exact .inl ⟨s, rfl, by simpa using hsign s rfl⟩

lemma matches_optional_exponent : (optional exponent).Matches w ↔
    ∃ e : Option Exponent, w = e.elim [] Exponent.chars := by
  rw [matches_optional, matches_exponent]
  constructor
  · rintro (⟨e, rfl⟩ | rfl)
    · exact ⟨.some e, rfl⟩
    · exact ⟨none, rfl⟩
  · rintro ⟨_ | e, rfl⟩
    · exact .inr rfl
    · exact .inl ⟨e, rfl⟩

/-- A float has a point with a digit beside it, or an exponent. -/
lemma matches_float : float.Matches w ↔
    (∃ (whole fraction : List Char) (e : Option Exponent),
      w = whole ++ '.' :: (fraction ++ e.elim [] Exponent.chars) ∧
        (∀ d ∈ whole, Text.isDigit d = true) ∧ (∀ d ∈ fraction, Text.isDigit d = true) ∧
        (whole ≠ [] ∨ fraction ≠ [])) ∨
    ∃ (whole : List Char) (e : Exponent),
      w = whole ++ e.chars ∧ (∀ d ∈ whole, Text.isDigit d = true) ∧ whole ≠ [] := by
  constructor
  · rintro (⟨_, _, rfl, hdigits, he⟩ | ⟨whole, _, rfl, hwhole, he⟩)
    · obtain ⟨e, rfl⟩ := matches_optional_exponent.1 he
      left
      rcases hdigits with ⟨whole, _, rfl, hwhole, _, fraction, rfl, hpoint, hf⟩ |
        ⟨_, fraction, rfl, hpoint, hf⟩
      · obtain ⟨hne, hwhole⟩ := matches_some_one.1 hwhole
        obtain rfl := matches_char.1 hpoint
        exact ⟨whole, fraction, e, by simp, hwhole, matches_many_one.1 hf, .inl hne⟩
      · obtain ⟨hne, hf⟩ := matches_some_one.1 hf
        obtain rfl := matches_char.1 hpoint
        exact ⟨[], fraction, e, by simp, nofun, hf, .inr hne⟩
    · obtain ⟨e, rfl⟩ := matches_exponent.1 he
      obtain ⟨hne, hwhole⟩ := matches_some_one.1 hwhole
      exact .inr ⟨whole, e, rfl, hwhole, hne⟩
  · rintro (⟨whole, fraction, e, rfl, hwhole, hf, hne⟩ | ⟨whole, e, rfl, hwhole, hne⟩)
    · have he : (optional exponent).Matches (e.elim [] Exponent.chars) :=
        matches_optional_exponent.2 ⟨e, rfl⟩
      refine .inl ⟨whole ++ '.' :: fraction, _, by simp, ?_, he⟩
      by_cases hnil : whole = []
      · subst hnil
        refine .inr ⟨['.'], fraction, rfl, matches_char.2 rfl, matches_some_one.2 ⟨?_, hf⟩⟩
        exact hne.resolve_left (not_not.2 rfl)
      · refine .inl ⟨whole, '.' :: fraction, rfl, matches_some_one.2 ⟨hnil, hwhole⟩, ?_⟩
        exact ⟨['.'], fraction, rfl, matches_char.2 rfl, matches_many_one.2 hf⟩
    · exact .inr ⟨whole, e.chars, rfl, matches_some_one.2 ⟨hne, hwhole⟩,
        matches_exponent.2 ⟨e, rfl⟩⟩

end Rule

end MatScript
