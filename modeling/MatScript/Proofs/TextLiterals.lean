import MatScript.Proofs.JoinedTexts
import MatScript.Proofs.Patterns

/-! Where a text literal ends. Its pattern may pass a backslash alone or with the character behind
it, so it may match up to several quotes. The matcher tries pairs first: it finds the first quote at
which reading by pairs arrives, and only if there is none it takes pairs apart, the last one first,
and finds the last quote of the text. -/
namespace MatScript

/-! ## Reading by pairs -/

/-- Reading inside a text literal: a backslash is passed with the character behind it, unless that
is a newline or the text ends, and any other character than a quote alone. -/
inductive Passes : List Char → List Char → Prop
  | here (cs : List Char) : Passes cs cs
  | pair {c : Char} {cs ds : List Char} : c ≠ '\n' → Passes cs ds → Passes ('\\' :: c :: cs) ds
  | alone {c : Char} {cs ds : List Char} : c ≠ '"' → (c = '\\' → ∀ d ∈ cs.head?, d = '\n') →
    Passes cs ds → Passes (c :: cs) ds

/-- The text literal with an opening quote before `rest` has `inner` between its quotes, and `more`
stands behind it: reading meets the closing quote, or it meets none and the closing quote is the
last one. -/
def ClosesAt (rest inner more : List Char) : Prop :=
  rest = inner ++ '"' :: more ∧
    (Passes rest ('"' :: more) ∨ (∀ later, ¬Passes rest ('"' :: later)) ∧ '"' ∉ more)

/-- A text with every backslash before a quote left out: it is cut at all pairs of them, and its
parts are joined by quotes. -/
def Unescapes (inner value : List Char) : Prop :=
  ∃ parts : List (List Char), (∀ part ∈ parts, ¬['\\', '"'] <:+: part) ∧
    inner = ['\\', '"'].intercalate parts ∧ value = ['"'].intercalate parts

namespace Token

variable {c d : Char} {cs rest inner more : List Char} {n : Nat}

/-- A backslash that is in no pair is the last character of its line. -/
lemma newline_of_not_pair (hpair : ∀ d tail, c = '\\' → cs = d :: tail → False) :
    c = '\\' → ∀ d ∈ cs.head?, d = '\n' := by
  intro hc d hd
  obtain ⟨tail, rfl⟩ := List.head?_eq_some_iff.1 hd
  exact absurd rfl (hpair d tail hc)

lemma exists_passes (h : Lexeme.openQuote? cs = some n) :
    ∃ inner more, cs = inner ++ '"' :: more ∧ inner.length = n ∧ Passes cs ('"' :: more) := by
  fun_induction Lexeme.openQuote? cs generalizing n with
  | case1 => cases h
  | case2 rest =>
    cases h
    exact ⟨[], rest, rfl, rfl, .here _⟩
  | case3 rest ih =>
    obtain ⟨m, hm, rfl⟩ := Option.map_eq_some_iff.1 h
    obtain ⟨inner, more, hcs, rfl, hpass⟩ := ih hm
    exact ⟨'\\' :: inner, more, by rw [hcs, List.cons_append], rfl,
      .alone (by decide) (by simp) hpass⟩
  | case4 c rest hc ih =>
    obtain ⟨m, hm, rfl⟩ := Option.map_eq_some_iff.1 h
    obtain ⟨inner, more, rfl, rfl, hpass⟩ := ih hm
    exact ⟨'\\' :: c :: inner, more, rfl, rfl, .pair hc hpass⟩
  | case5 c rest hq hpair ih =>
    obtain ⟨m, hm, rfl⟩ := Option.map_eq_some_iff.1 h
    obtain ⟨inner, more, hcs, rfl, hpass⟩ := ih hm
    exact ⟨c :: inner, more, by rw [hcs, List.cons_append], rfl,
      .alone hq (newline_of_not_pair hpair) hpass⟩

lemma openQuote?_of_passes (h : Passes cs ('"' :: more)) :
    ∃ inner, cs = inner ++ '"' :: more ∧ Lexeme.openQuote? cs = some inner.length := by
  generalize htarget : '"' :: more = target at h
  induction h with
  | here =>
    subst htarget
    exact ⟨[], rfl, rfl⟩
  | pair hc _ ih =>
    obtain ⟨inner, rfl, hopen⟩ := ih htarget
    refine ⟨'\\' :: _ :: inner, rfl, ?_⟩
    rw [openQuote?_backslash hc, hopen]
    rfl
  | @alone c cs _ hq hb _ ih =>
    obtain ⟨inner, hcs, hopen⟩ := ih htarget
    refine ⟨c :: inner, by rw [hcs, List.cons_append], ?_⟩
    have hstep : Lexeme.openQuote? (c :: cs) = (Lexeme.openQuote? cs).map (· + 1) := by
      by_cases hc : c = '\\'
      · subst hc
        cases cs with
        | nil => rfl
        | cons e cs =>
          obtain rfl := hb rfl e rfl
          exact openQuote?_backslash_newline
      · exact openQuote?_cons hq hc
    rw [hstep, hopen]
    rfl

lemma openQuote?_eq_none_of_not_passes (h : ∀ later, ¬Passes cs ('"' :: later)) :
    Lexeme.openQuote? cs = none := by
  rw [Option.eq_none_iff_forall_ne_some]
  intro n hn
  obtain ⟨inner, more, -, -, hpass⟩ := exists_passes hn
  exact h more hpass

lemma lastQuote?_of_not_mem (h : '"' ∉ more) :
    Lexeme.lastQuote? (inner ++ '"' :: more) = some inner.length := by
  have hnone : Lexeme.lastQuote? more = none := lastQuote?_eq_none_iff.2 h
  have hquote : Lexeme.lastQuote? ('"' :: more) = some 0 := by
    rw [Lexeme.lastQuote?, hnone]
    rfl
  rw [lastQuote?_append, hquote]
  simp

lemma textLength?_of_closesAt (h : ClosesAt rest inner more) :
    Lexeme.textLength? rest = some inner.length := by
  obtain ⟨hrest, hpass | ⟨hnone, hlast⟩⟩ := h
  · obtain ⟨passed, hpassed, hopen⟩ := openQuote?_of_passes hpass
    obtain rfl : passed = inner := List.append_cancel_right (hpassed.symm.trans hrest)
    rw [Lexeme.textLength?, hopen]
  · rw [Lexeme.textLength?, openQuote?_eq_none_of_not_passes hnone, hrest,
      lastQuote?_of_not_mem hlast]

/-- The piece that a closed literal is. -/
lemma piece_of_closesAt (h : ClosesAt rest inner more) :
    piece '"' rest = (.lexeme (.text (String.ofList (Lexeme.unescape inner))), inner.length + 1) ∧
      rest.take (inner.length + 1) = inner ++ ['"'] ∧ rest.drop (inner.length + 1) = more := by
  rw [piece_quote_some (textLength?_of_closesAt h), h.1]
  refine ⟨by rw [List.take_left], ?_, ?_⟩
  · rw [List.take_append]
    simp
  · rw [List.drop_append]
    simp

/-- Where a quote follows the opening one, the literal is closed. -/
lemma exists_closesAt (h : '"' ∈ rest) : ∃ inner more, ClosesAt rest inner more := by
  by_cases hpass : ∃ later, Passes rest ('"' :: later)
  · obtain ⟨more, hpass⟩ := hpass
    obtain ⟨inner, hrest, -⟩ := openQuote?_of_passes hpass
    exact ⟨inner, more, hrest, .inl hpass⟩
  · obtain ⟨after, before, hsplit, hlast⟩ := List.eq_append_cons_of_mem (List.mem_reverse.2 h)
    refine ⟨before.reverse, after.reverse, ?_, .inr ⟨not_exists.1 hpass, by simpa using hlast⟩⟩
    rw [← List.reverse_reverse rest, hsplit]
    simp

lemma textLength?_eq_none (h : '"' ∉ rest) : Lexeme.textLength? rest = none := by
  rw [Lexeme.textLength?, openQuote?_of_not_mem h]
  exact lastQuote?_eq_none_iff.2 h

/-! ## Matching the pattern -/

/-- What is left behind the closing quotes that the pattern finds, in the order in which they are
found. -/
def closings (cs : List Char) : List (List Char) :=
  (Pattern.seq (.many Rule.step) (.char '"')).ends cs

lemma ends_text (rest : List Char) : Rule.text.pattern.ends ('"' :: rest) = closings rest := by
  simp [Rule.pattern, Pattern.ends, Pattern.char, closings]

/-- Every step of the repetition passes a character, so none is left out. -/
lemma closings_eq (cs : List Char) : closings cs =
    (Rule.step.ends cs).flatMap closings ++ (Pattern.char '"').ends cs := by
  have hstep : ∀ left ∈ Rule.step.ends cs, decide (left.length < cs.length) = true := by
    intro left hleft
    obtain ⟨w, rfl, hw⟩ := Pattern.mem_ends.1 hleft
    have hne : 0 < w.length := by
      rcases hw with ⟨u, v, rfl, hu, -⟩ | ⟨c, rfl, -⟩
      · rw [Pattern.matches_char.1 hu]
        simp
      · simp
    exact decide_eq_true (by rw [List.length_append]; omega)
  rw [closings, Pattern.ends, Pattern.ends, Pattern.repeated_eq,
    List.filter_eq_self.2 hstep, List.flatMap_append, List.flatMap_assoc, List.flatMap_singleton]
  rfl

lemma closings_quote (cs : List Char) : closings ('"' :: cs) = [cs] := by
  rw [closings_eq]
  simp [Rule.step, Pattern.ends, Pattern.char]

lemma closings_pair (hd : d ≠ '\n') :
    closings ('\\' :: d :: cs) = closings cs ++ closings (d :: cs) := by
  rw [closings_eq]
  simp [Rule.step, Pattern.ends, Pattern.char, hd]

lemma closings_alone (hq : c ≠ '"') (hb : c = '\\' → ∀ d ∈ cs.head?, d = '\n') :
    closings (c :: cs) = closings cs := by
  rw [closings_eq]
  by_cases hc : c = '\\'
  · cases cs with
    | nil => simp [Rule.step, Pattern.ends, Pattern.char, hc]
    | cons d cs => simp [Rule.step, Pattern.ends, Pattern.char, hc, hb hc d rfl]
  · simp [Rule.step, Pattern.ends, Pattern.char, hc, hq]

lemma closings_of_not_mem (h : '"' ∉ cs) : closings cs = [] := by
  rw [List.eq_nil_iff_forall_not_mem]
  intro left hleft
  obtain ⟨w, rfl, u, v, rfl, -, hv⟩ := Pattern.mem_ends.1 hleft
  rw [Pattern.matches_char.1 hv] at h
  simp at h

lemma closings_of_passes (h : Passes cs ('"' :: more)) : (closings cs).head? = some more := by
  generalize htarget : '"' :: more = target at h
  induction h with
  | here =>
    subst htarget
    rw [closings_quote]
    rfl
  | pair hc _ ih => rw [closings_pair hc, List.head?_append, ih htarget, Option.some_or]
  | alone hq hb _ ih => rw [closings_alone hq hb, ih htarget]

/-- If no reading by pairs arrives at a quote, the pattern comes back to the last pair that it can
take apart. Of the quotes behind it only the one in this pair is met then, and it is the last. -/
lemma closings_of_openQuote?_eq_none (h : Lexeme.openQuote? cs = none)
    (hcs : cs = inner ++ '"' :: more) (hmore : '"' ∉ more) : (closings cs).head? = some more := by
  fun_induction Lexeme.openQuote? cs generalizing inner with
  | case1 => simp at hcs
  | case2 rest => cases h
  | case3 rest ih =>
    rcases inner with - | ⟨e, inner⟩
    · simp at hcs
    · rw [closings_alone (by decide) (by simp)]
      exact ih (Option.map_eq_none_iff.1 h) (List.cons.inj hcs).2
  | case4 c rest hc ih =>
    rw [closings_pair hc]
    rcases inner with - | ⟨e, - | ⟨f, inner⟩⟩
    · simp at hcs
    · -- The last quote is in this pair: behind the pair nothing closes, so it is taken apart.
      obtain ⟨rfl, rfl⟩ := List.cons.inj (List.cons.inj hcs).2
      rw [closings_of_not_mem hmore, List.nil_append, closings_quote]
      rfl
    · rw [List.head?_append,
        ih (Option.map_eq_none_iff.1 h) (List.cons.inj (List.cons.inj hcs).2).2, Option.some_or]
  | case5 c rest hq hpair ih =>
    rcases inner with - | ⟨e, inner⟩
    · exact absurd (List.cons.inj hcs).1 hq
    · rw [closings_alone hq (newline_of_not_pair hpair)]
      exact ih (Option.map_eq_none_iff.1 h) (List.cons.inj hcs).2

lemma ends_of_closesAt (h : ClosesAt rest inner more) :
    (Rule.text.pattern.ends ('"' :: rest)).head? = some more := by
  rw [ends_text]
  obtain ⟨hrest, hpass | ⟨hnone, hlast⟩⟩ := h
  · exact closings_of_passes hpass
  · exact closings_of_openQuote?_eq_none (openQuote?_eq_none_of_not_passes hnone) hrest hlast

/-! ## The value -/

/-- A part goes on with a character that starts no pair. -/
lemma not_infix_cons {part : List Char} (hpair : ∀ tail, c = '\\' → part ≠ '"' :: tail)
    (h : ¬['\\', '"'] <:+: part) : ¬['\\', '"'] <:+: c :: part := by
  rw [List.infix_cons_iff, not_or]
  refine ⟨fun ⟨tail, htail⟩ => ?_, h⟩
  obtain ⟨hc, hpart⟩ := List.cons.inj htail
  exact hpair tail hc.symm hpart.symm

lemma unescapes_unescape (cs : List Char) : Unescapes cs (Lexeme.unescape cs) := by
  -- A character that is kept goes to the front of the first part, so there has to be one.
  suffices h : ∃ first parts, (∀ part ∈ first :: parts, ¬['\\', '"'] <:+: part) ∧
      cs = ['\\', '"'].intercalate (first :: parts) ∧
      Lexeme.unescape cs = ['"'].intercalate (first :: parts) by
    obtain ⟨first, parts, h⟩ := h
    exact ⟨first :: parts, h⟩
  fun_induction Lexeme.unescape cs with
  | case1 rest ih =>
    obtain ⟨first, parts, hparts, hrest, hvalue⟩ := ih
    refine ⟨[], first :: parts, List.forall_mem_cons.2 ⟨by simp, hparts⟩, ?_, ?_⟩
    · rw [List.intercalate_cons_cons, ← hrest]
      rfl
    · rw [List.intercalate_cons_cons, ← hvalue]
      rfl
  | case2 c rest hpair ih =>
    obtain ⟨first, parts, hparts, hrest, hvalue⟩ := ih
    obtain ⟨hfirst, hlater⟩ := List.forall_mem_cons.1 hparts
    have hcons (sep : List Char) :
        sep.intercalate ((c :: first) :: parts) = c :: sep.intercalate (first :: parts) := by
      cases parts with
      | nil => simp
      | cons part parts => simp [List.intercalate_cons_cons]
    have hstart : ∀ tail, c = '\\' → first ≠ '"' :: tail := by
      rintro tail hc rfl
      obtain ⟨more, hmore⟩ : ∃ more, rest = '"' :: more := by
        rw [hrest]
        cases parts with
        | nil => exact ⟨tail, by simp⟩
        | cons part parts => exact ⟨_, by rw [List.intercalate_cons_cons, List.cons_append]; rfl⟩
      exact hpair more hc hmore
    exact ⟨c :: first, parts, List.forall_mem_cons.2 ⟨not_infix_cons hstart hfirst, hlater⟩,
      by rw [hcons, ← hrest], by rw [hcons, ← hvalue]⟩
  | case3 => exact ⟨[], [], by simp, by simp, by simp⟩

/-! ## The literal -/

/-- At a quote, the scanner reads a text literal up to where it is closed, which is where the
pattern of text literals first matches; then it goes on. Without a further quote there is no
literal, and scanning ends. -/
theorem scanFrom_quote (p : Place) (rest : List Char) :
    (∀ inner more, ClosesAt rest inner more →
      (Rule.text.pattern.ends ('"' :: rest)).head? = some more ∧
      ∃ value, Unescapes inner value ∧
        let l := Lexeme.text (String.ofList value)
        let later := scanFrom (p.after (.lexeme l) ('"' :: (inner ++ ['"']))) more
        scanFrom p ('"' :: rest) =
          ⟨⟨l, p.line, p.column, p.offset⟩ :: later.tokens, later.ending, later.line⟩) ∧
    ('"' ∈ rest → ∃ inner more, ClosesAt rest inner more) ∧
    ('"' ∉ rest → Rule.text.pattern.ends ('"' :: rest) = [] ∧
      scanFrom p ('"' :: rest) = ⟨[], .illegal '"', p.line⟩) := by
  refine ⟨fun inner more h => ⟨ends_of_closesAt h, _, unescapes_unescape inner, ?_⟩,
    exists_closesAt, fun h => ⟨by rw [ends_text, closings_of_not_mem h], ?_⟩⟩
  · obtain ⟨hpiece, htake, hdrop⟩ := piece_of_closesAt h
    rw [scanFrom, hpiece]
    simp only [htake, hdrop]
  · rw [scanFrom, piece_quote_none (textLength?_eq_none h)]

/-- Both further quotes stand in pairs, so the literal goes to the last one and ends in a
backslash. -/
theorem scanFrom_quote_last :
    ClosesAt ['a', '\\', '"', 'b', '\\', '"', ' '] ['a', '\\', '"', 'b', '\\'] [' '] ∧
      (Rule.text.pattern.ends ['"', 'a', '\\', '"', 'b', '\\', '"', ' ']).head? = some [' '] ∧
      (scanFrom ⟨1, 1, 0⟩ ['"', 'a', '\\', '"', 'b', '\\', '"', ' ']).tokens.length =
        (scanFrom ⟨1, 8, 7⟩ [' ']).tokens.length + 1 ∧
      '"' ∉ ['a'] ∧ scanFrom ⟨1, 1, 0⟩ ['"', 'a'] = ⟨[], .illegal '"', 1⟩ := by
  have hcloses :
      ClosesAt ['a', '\\', '"', 'b', '\\', '"', ' '] ['a', '\\', '"', 'b', '\\'] [' '] := by
    refine ⟨rfl, .inr ⟨fun later hpass => ?_, by decide⟩⟩
    obtain ⟨inner, -, hopen⟩ := openQuote?_of_passes hpass
    simp [Lexeme.openQuote?] at hopen
  obtain ⟨hends, value, -, hscan⟩ := (scanFrom_quote ⟨1, 1, 0⟩ _).1 _ _ hcloses
  refine ⟨hcloses, hends, ?_, by decide, ((scanFrom_quote ⟨1, 1, 0⟩ ['a']).2.2 (by decide)).2⟩
  rw [hscan]
  rfl

end Token

end MatScript
