import MatScript.Proofs.Tiling

/-! Where tokens stand. The column and the offset of a token are true positions in the text. The
line is one only as long as no text literal before the token goes over several lines: newlines
inside literals start a new column, but not a new line. -/
namespace MatScript

/-- The line of an offset in a text. -/
def lineAt (cs : List Char) (offset : Nat) : Nat := 1 + (cs.take offset).count '\n'

/-- The column of an offset: its distance from the start of its line, from 1 on. -/
def columnAt (cs : List Char) (offset : Nat) : Nat :=
  ((cs.take offset).rtakeWhile (· ≠ '\n')).length + 1

/-- How many newlines a lexeme has. -/
def Lexeme.newlines : Lexeme → Nat
  | .text s => s.toList.count '\n'
  | _ => 0

namespace Token

variable {c : Char} {cs rest w left : List Char} {n : Nat}

/-! ## Columns -/

lemma columnAfter_append (n : Nat) (cs ds : List Char) :
    columnAfter n (cs ++ ds) = columnAfter (columnAfter n cs) ds :=
  List.foldl_append

lemma columnAfter_of_not_mem (h : '\n' ∉ cs) : columnAfter n cs = n + cs.length := by
  induction cs generalizing n with
  | nil => rfl
  | cons c cs ih =>
    obtain ⟨hc, hcs⟩ := not_or.1 (List.mem_cons.not.1 h)
    rw [columnAfter, List.foldl_cons, if_neg (Ne.symm hc), ← columnAfter, ih hcs, List.length_cons]
    omega

/-- The column that the scanner counts is the distance from the last newline. -/
lemma columnAfter_eq_columnAt (cs : List Char) (offset : Nat) :
    columnAfter 1 (cs.take offset) = columnAt cs offset := by
  rw [columnAt]
  induction cs.take offset using List.reverseRecOn with
  | nil => rfl
  | append_singleton cs c ih =>
    rw [columnAfter_append, ih, List.rtakeWhile_concat, columnAfter, List.foldl_cons,
      List.foldl_nil]
    by_cases hc : c = '\n'
    · simp [hc]
    · simp [hc]

/-- Line and column determine the offset. -/
lemma eq_of_position {i j : Nat} (hij : i ≤ j) (hj : j ≤ cs.length)
    (hline : lineAt cs i = lineAt cs j) (hcolumn : columnAt cs i = columnAt cs j) : i = j := by
  obtain ⟨k, rfl⟩ := Nat.exists_eq_add_of_le hij
  have hsplit : cs.take (i + k) = cs.take i ++ (cs.drop i).take k := List.take_add
  rw [lineAt, lineAt, hsplit, List.count_append] at hline
  have hnone : '\n' ∉ (cs.drop i).take k := List.count_eq_zero.1 (by omega)
  have hlength : ((cs.drop i).take k).length = k :=
    List.length_take_of_le (by rw [List.length_drop]; omega)
  rw [← columnAfter_eq_columnAt, ← columnAfter_eq_columnAt, hsplit, columnAfter_append,
    columnAfter_of_not_mem hnone, hlength] at hcolumn
  omega

/-! ## Newlines in pieces -/

lemma count_unescape (cs : List Char) : (Lexeme.unescape cs).count '\n' = cs.count '\n' := by
  fun_induction Lexeme.unescape cs with
  | case1 rest ih => simp [ih]
  | case2 c rest _ ih => rw [List.count_cons, List.count_cons, ih]
  | case3 => rfl

lemma not_mem_of_all {p : Char → Bool} (hw : ∀ d ∈ w, p d = true) (hp : p '\n' = false) :
    '\n' ∉ w := by
  intro hmem
  rw [hw _ hmem] at hp
  cases hp

lemma newline_not_mem_exponent (e : Exponent) : '\n' ∉ e.chars := by
  have hdigits := not_mem_of_all e.digits_fit (by decide)
  have hmark : '\n' ≠ e.mark := by
    rcases e.mark_fits with h | h <;> rw [h] <;> decide
  have hsign : '\n' ∉ e.sign.toList := by
    rw [Option.mem_toList]
    intro h
    rcases e.sign_fits _ h with h | h <;> exact absurd h (by decide)
  simp [Exponent.chars, hmark, hsign, hdigits]

lemma newline_not_mem_float (h : Rule.float.Matches w) : '\n' ∉ w := by
  rcases Rule.matches_float.1 h with ⟨whole, fraction, e, rfl, hwhole, hfraction, -⟩ |
    ⟨whole, e, rfl, hwhole, -⟩
  · have hexponent : '\n' ∉ e.elim [] Exponent.chars := by
      cases e with
      | none => exact List.not_mem_nil
      | some e => exact newline_not_mem_exponent e
    simp [not_mem_of_all hwhole (by decide), not_mem_of_all hfraction (by decide), hexponent]
  · simp [not_mem_of_all hwhole (by decide), newline_not_mem_exponent e]

lemma newlines_ofWord (w : List Char) : (Lexeme.ofWord w).newlines = 0 := by
  simp only [Lexeme.ofWord]
  split <;> rfl

lemma newlines_float (w : List Char) : (Rule.float.lexeme w).newlines = 0 := by
  simp only [Rule.lexeme]
  split <;> rfl

/-- All newlines of a token are inside a text literal. -/
lemma count_of_matches {rule : Rule} (h : rule.Matches w) :
    w.count '\n' = (rule.lexeme w).newlines := by
  cases rule with
  | word =>
    obtain ⟨c, cs, rfl, hc, hcs⟩ := Pattern.matches_one_many_one.1 h
    have hfirst : '\n' ∉ [c] := not_mem_of_all (List.forall_mem_singleton.2 hc) (by decide)
    rw [Rule.lexeme, newlines_ofWord, List.count_eq_zero, ← List.singleton_append, List.mem_append]
    exact not_or.2 ⟨hfirst, not_mem_of_all hcs (by decide)⟩
  | text =>
    obtain ⟨u, v, rfl, hu, inner, closing, rfl, -, hclosing⟩ := h
    rw [Pattern.matches_char.1 hu, Pattern.matches_char.1 hclosing]
    simp [Rule.lexeme, Lexeme.newlines, count_unescape]
  | float => rw [newlines_float, List.count_eq_zero.2 (newline_not_mem_float h)]
  | int => exact List.count_eq_zero.2 (not_mem_of_all (Pattern.matches_some_one.1 h).2 (by decide))
  | symbol s =>
    rw [Pattern.matches_word.1 h]
    cases s <;> decide

lemma count_of_lexeme {l : Lexeme} (h : piece c rest = (.lexeme l, n)) :
    (c :: rest.take n).count '\n' = l.newlines := by
  obtain ⟨rule, rfl, hmatches, -⟩ := piece_cuts h
  exact count_of_matches hmatches

/-- Between tokens, all newlines are counted. -/
lemma line_after_gap {pc : Piece} (hgap : pc.IsGap) (h : piece c rest = (pc, n)) (p : Place) :
    (p.after pc (c :: rest.take n)).line = p.line + (c :: rest.take n).count '\n' := by
  have hcuts := piece_cuts h
  rcases hgap with rfl | rfl | rfl
  · have hblanks := (Pattern.matches_some_one.1 hcuts.1).2
    rw [List.count_eq_zero.2 (not_mem_of_all hblanks (by decide))]
    rfl
  · have hnewlines := (Pattern.matches_some_one.1 hcuts.1).2
    rw [List.count_eq_length.2 fun d hd => (of_decide_eq_true (hnewlines d hd)).symm]
    rfl
  · obtain ⟨d, ds, hw, hd, hds⟩ := Pattern.matches_one_many_one.1 hcuts.1
    have hfirst : d ≠ '\n' := by
      rw [of_decide_eq_true hd]
      decide
    rw [hw, List.count_cons_of_ne hfirst, List.count_eq_zero.2 (not_mem_of_all hds (by decide))]
    rfl

/-! ## Positions -/

/-- A token is as far behind a place before `cs` as the characters between them say, but of the
newlines among these some are not counted as lines. -/
def Behind (p : Place) (cs : List Char) (uncounted : Nat) (t : Token) : Prop :=
  ∃ d ≤ cs.length, t.offset = p.offset + d ∧ t.column = columnAfter p.column (cs.take d) ∧
    t.line + uncounted = p.line + (cs.take d).count '\n'

/-- What is behind the place after a piece is behind the place before it. -/
lemma Behind.before {p : Place} {pc : Piece} {t : Token} {k uncounted : Nat}
    (hpiece : piece c rest = (pc, n))
    (hline : (p.after pc (c :: rest.take n)).line + k = p.line + (c :: rest.take n).count '\n')
    (h : Behind (p.after pc (c :: rest.take n)) (rest.drop n) uncounted t) :
    Behind p (c :: rest) (k + uncounted) t := by
  obtain ⟨d, hd, hoffset, hcolumn, htline⟩ := h
  have hn : n ≤ rest.length := by simpa [hpiece] using piece_le c rest
  have htake : (c :: rest).take (n + 1 + d) = c :: rest.take n ++ (rest.drop n).take d := by
    rw [List.take_add]
    rfl
  rw [List.length_drop] at hd
  refine ⟨n + 1 + d, by rw [List.length_cons]; omega, ?_, ?_, ?_⟩
  · simp only [hoffset, Place.after, List.length_cons, List.length_take_of_le hn]
    omega
  · rw [htake, columnAfter_append, hcolumn]
    rfl
  · rw [htake, List.count_append]
    omega

/-- The newlines inside earlier tokens are not counted as lines. -/
lemma scanFrom_behind (p : Place) (cs : List Char) (before : List Token) (t : Token)
    (after : List Token) (h : (scanFrom p cs).tokens = before ++ t :: after) :
    Behind p cs (before.map fun u => u.lexeme.newlines).sum t := by
  fun_induction scanFrom p cs generalizing before with
  | case1 p => simp at h
  | case2 p c rest more hpiece => simp at h
  | case3 p c rest more digits hpiece => simp at h
  | case4 p c rest more l hpiece next scan ih =>
    cases before with
    | nil =>
      obtain ⟨rfl, -⟩ := List.cons.inj h
      exact ⟨0, Nat.zero_le _, rfl, rfl, rfl⟩
    | cons u before =>
      -- The line stays as it is over a token, so all its newlines are added to the uncounted ones.
      obtain ⟨rfl, htail⟩ := List.cons.inj h
      rw [List.map_cons, List.sum_cons]
      exact (ih before htail).before hpiece (by rw [count_of_lexeme hpiece]; rfl)
  | case5 p c rest pc more hpiece next hillegal hlong hlexeme ih =>
    have hline := line_after_gap (Piece.isGap_of_ne hillegal hlong hlexeme) hpiece p
    have hbehind := (ih before h).before hpiece ((Nat.add_zero _).trans hline)
    rwa [Nat.zero_add] at hbehind

variable {text : String} {before after : List Token} {t u : Token}

lemma scan_position (h : (scan 1 text).tokens = before ++ t :: after) :
    t.offset ≤ text.toList.length ∧ t.column = columnAt text.toList t.offset ∧
      t.line + (before.map fun u => u.lexeme.newlines).sum = lineAt text.toList t.offset := by
  obtain ⟨d, hd, hoffset, hcolumn, hline⟩ := scanFrom_behind _ _ before t after h
  obtain rfl : d = t.offset := (hoffset.trans (Nat.zero_add d)).symm
  exact ⟨hd, hcolumn.trans (columnAfter_eq_columnAt _ _), hline⟩

/-- The lines are true as long as no token but the last has newlines. -/
lemma lines_true_iff : (∀ t ∈ (scan 1 text).tokens, t.line = lineAt text.toList t.offset) ↔
    ∀ u ∈ (scan 1 text).tokens.dropLast, u.lexeme.newlines = 0 := by
  constructor
  · intro h u hu
    have hne : (scan 1 text).tokens ≠ [] := by
      intro hnil
      rw [hnil] at hu
      cases hu
    obtain ⟨-, -, hline⟩ := scan_position (List.dropLast_append_getLast hne).symm
    rw [h _ (List.getLast_mem hne)] at hline
    have hzero := List.sum_eq_zero_iff.1 (Nat.add_eq_left.1 hline)
    exact hzero _ (List.mem_map_of_mem hu)
  · intro h t ht
    obtain ⟨before, after, hsplit⟩ := List.append_of_mem ht
    obtain ⟨-, -, hline⟩ := scan_position hsplit
    rw [hsplit, List.dropLast_append_of_ne_nil (List.cons_ne_nil t after)] at h
    rw [List.sum_eq_zero, Nat.add_zero] at hline
    · exact hline
    · rintro _ hn
      obtain ⟨u, hu, rfl⟩ := List.mem_map.1 hn
      exact h u (List.mem_append_left _ hu)

lemma offset_eq_of_position (ht : t ∈ (scan 1 text).tokens) (hu : u ∈ (scan 1 text).tokens)
    (hline : lineAt text.toList t.offset = lineAt text.toList u.offset)
    (hcolumn : t.column = u.column) : t.offset = u.offset := by
  obtain ⟨_, _, htsplit⟩ := List.append_of_mem ht
  obtain ⟨_, _, husplit⟩ := List.append_of_mem hu
  obtain ⟨htle, htcolumn, -⟩ := scan_position htsplit
  obtain ⟨hule, hucolumn, -⟩ := scan_position husplit
  rw [htcolumn, hucolumn] at hcolumn
  rcases Nat.le_total t.offset u.offset with hle | hle
  · exact eq_of_position hle hule hline hcolumn
  · exact (eq_of_position hle htle hline.symm hcolumn.symm).symm

/-- Every token has the column of its offset, and its line falls short of the line of its offset by
the newlines inside earlier text literals. So all lines are true exactly if no literal that another
token follows goes over several lines, and then line and column determine the offset. -/
theorem scan_positions (text : String) :
    (∀ before t after, (scan 1 text).tokens = before ++ t :: after →
      t.column = columnAt text.toList t.offset ∧
      t.line + (before.map fun u => u.lexeme.newlines).sum = lineAt text.toList t.offset) ∧
    ((∀ t ∈ (scan 1 text).tokens, t.line = lineAt text.toList t.offset) ↔
      ∀ u ∈ (scan 1 text).tokens.dropLast, u.lexeme.newlines = 0) ∧
    ((∀ u ∈ (scan 1 text).tokens.dropLast, u.lexeme.newlines = 0) →
      ∀ t ∈ (scan 1 text).tokens, ∀ u ∈ (scan 1 text).tokens,
        t.line = u.line → t.column = u.column → t.offset = u.offset) := by
  refine ⟨fun before t after h => (scan_position h).2, lines_true_iff, ?_⟩
  intro hnone t ht u hu hline hcolumn
  have htrue := lines_true_iff.2 hnone
  rw [htrue t ht, htrue u hu] at hline
  exact offset_eq_of_position ht hu hline hcolumn

/-- A newline before a name, and one inside a text literal that is the last token. -/
theorem scan_positions_last_literal :
    (scan 1 "a\n b\"\n\"").tokens =
        [⟨.name "a", 1, 1, 0⟩, ⟨.name "b", 2, 2, 3⟩, ⟨.text "\n", 2, 3, 4⟩] ∧
      3 = columnAt "a\n b\"\n\"".toList 4 ∧
      (∀ u ∈ (scan 1 "a\n b\"\n\"").tokens.dropLast, u.lexeme.newlines = 0) ∧
      (∀ t ∈ (scan 1 "a\n b\"\n\"").tokens, t.line = lineAt "a\n b\"\n\"".toList t.offset) ∧
      ∀ t ∈ (scan 1 "a\n b\"\n\"").tokens, ∀ u ∈ (scan 1 "a\n b\"\n\"").tokens,
        t.line = u.line → t.column = u.column → t.offset = u.offset := by
  have htokens : (scan 1 "a\n b\"\n\"").tokens =
      [⟨.name "a", 1, 1, 0⟩, ⟨.name "b", 2, 2, 3⟩, ⟨.text "\n", 2, 3, 4⟩] := by cbv
  have hnone : ∀ u ∈ (scan 1 "a\n b\"\n\"").tokens.dropLast, u.lexeme.newlines = 0 := by
    rw [htokens]
    decide
  obtain ⟨hplaces, hlines, hunique⟩ := scan_positions "a\n b\"\n\""
  exact ⟨htokens, (hplaces [_, _] _ [] htokens).1, hnone, hlines.2 hnone, hunique hnone⟩

/-- Behind a literal with a newline the line is not true, and a token may have the line and the
column of an earlier one. -/
theorem line_after_literal :
    scan 1 "a;\"\n\"c" = ⟨[⟨.name "a", 1, 1, 0⟩, ⟨.symbol .semicolon, 1, 2, 1⟩,
        ⟨.text "\n", 1, 3, 2⟩, ⟨.name "c", 1, 2, 5⟩], .finished, 1⟩ ∧
      lineAt "a;\"\n\"c".toList 5 = 2 := by
  constructor
  · cbv
  · decide

end Token

end MatScript
