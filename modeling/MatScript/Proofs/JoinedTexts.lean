import MatScript.Proofs.ParseComplete
import MatScript.Proofs.Rendering

/-! Two scripts as one text. The scanner reads what stands before a newline as it reads it at the
end of a text, with one exception: a text literal that only ends at a quote behind a backslash goes
on to a later quote if there is one. So two scripts, one after the other, are the script of all
their statements unless such a literal of the first one meets a quote in the second. -/
namespace MatScript

namespace Token

variable {c : Char} {cs rest more : List Char} {n : Nat}

/-! ## Pieces before a newline -/

section

variable {p : Char → Bool}

lemma takeWhile_before (hp : p '\n' = false) (cs more : List Char) :
    (cs ++ '\n' :: more).takeWhile p = cs.takeWhile p := by
  induction cs with
  | nil => simp [hp]
  | cons c cs ih =>
    by_cases hc : p c = true
    · simp [hc, ih]
    · simp [hc]

lemma dropWhile_before (hp : p '\n' = false) (cs more : List Char) :
    (cs ++ '\n' :: more).dropWhile p = cs.dropWhile p ++ '\n' :: more := by
  induction cs with
  | nil => simp [hp]
  | cons c cs ih =>
    by_cases hc : p c = true
    · simp [hc, ih]
    · simp [hc]

end

/-- A run that something follows ends there. -/
lemma takeWhile_append_of_drop_ne_nil {p : Char → Bool}
    (h : cs.drop (cs.takeWhile p).length ≠ []) (more : List Char) :
    (cs ++ more).takeWhile p = cs.takeWhile p := by
  induction cs with
  | nil => exact absurd rfl h
  | cons c cs ih =>
    by_cases hc : p c = true
    · rw [List.takeWhile_cons_of_pos hc, List.length_cons, List.drop_succ_cons] at h
      rw [List.cons_append, List.takeWhile_cons_of_pos hc, List.takeWhile_cons_of_pos hc, ih h]
    · rw [List.cons_append, List.takeWhile_cons_of_neg hc, List.takeWhile_cons_of_neg hc]

lemma isDigit_newline : Text.isDigit '\n' = false := by decide

lemma exponentLength_before (cs more : List Char) :
    Lexeme.exponentLength (cs ++ '\n' :: more) = Lexeme.exponentLength cs := by
  cases cs with
  | nil => rfl
  | cons mark cs =>
    simp only [List.cons_append, Lexeme.exponentLength]
    split
    · cases cs with
      | nil => rfl
      | cons s cs =>
        by_cases hs : s = '-' ∨ s = '+'
        · simp only [List.cons_append, if_pos hs, takeWhile_before isDigit_newline]
        · have hdigits := takeWhile_before isDigit_newline (s :: cs) more
          rw [List.cons_append] at hdigits
          simp only [List.cons_append, if_neg hs, hdigits]
    · rfl

lemma exponentLength_le (cs : List Char) : Lexeme.exponentLength cs ≤ cs.length := by
  have hrun (ds : List Char) : (ds.takeWhile Text.isDigit).length ≤ ds.length :=
    (List.takeWhile_prefix Text.isDigit).length_le
  cases cs with
  | nil => exact Nat.le_refl 0
  | cons mark cs =>
    simp only [Lexeme.exponentLength]
    split
    · cases cs with
      | nil => exact Nat.zero_le _
      | cons s cs =>
        have hshort := hrun cs
        have hlong := hrun (s :: cs)
        simp only [List.length_cons] at hlong ⊢
        by_cases hs : s = '-' ∨ s = '+'
        · simp only [if_pos hs]
          split <;> omega
        · simp only [if_neg hs]
          split <;> omega
    · exact Nat.zero_le _

/-- The part of a text that an exponent takes. -/
lemma take_exponentLength_before (cs more : List Char) :
    (cs ++ '\n' :: more).take (Lexeme.exponentLength (cs ++ '\n' :: more)) =
      cs.take (Lexeme.exponentLength cs) := by
  rw [exponentLength_before, List.take_append_of_le_length (exponentLength_le cs)]

lemma floatParts?_before (cs more : List Char) :
    Lexeme.floatParts? (cs ++ '\n' :: more) = Lexeme.floatParts? cs := by
  simp only [Lexeme.floatParts?, takeWhile_before isDigit_newline, dropWhile_before isDigit_newline]
  cases cs.dropWhile Text.isDigit with
  | nil => simp [Lexeme.exponentLength]
  | cons d tail =>
    by_cases hd : d = '.'
    · simp only [hd, List.cons_append, takeWhile_before isDigit_newline,
        dropWhile_before isDigit_newline, take_exponentLength_before]
    · have hexp := take_exponentLength_before (d :: tail) more
      have hlen := exponentLength_before (d :: tail) more
      rw [List.cons_append] at hexp hlen
      rw [hlen] at hexp
      simp [hd, hexp, hlen]

lemma symbolPiece_before (c : Char) (rest more : List Char) :
    symbolPiece c (rest ++ '\n' :: more) = symbolPiece c rest := by
  cases rest with
  | nil =>
    have hpair : Lexeme.symbolPair? c '\n' = none := by
      rw [Lexeme.symbolPair?] <;> nofun
    simp [symbolPiece, hpair]
  | cons d rest => rfl

lemma numberPiece_before (c : Char) (rest more : List Char) :
    numberPiece c (rest ++ '\n' :: more) = numberPiece c rest := by
  have hparts := floatParts?_before (c :: rest) more
  rw [List.cons_append] at hparts
  simp only [numberPiece, hparts, takeWhile_before isDigit_newline, symbolPiece_before]

/-! ## Text literals -/

lemma openQuote?_backslash (hc : c ≠ '\n') :
    Lexeme.openQuote? ('\\' :: c :: cs) = (Lexeme.openQuote? cs).map (· + 2) := by
  rw [Lexeme.openQuote?, if_neg hc]

lemma openQuote?_backslash_newline :
    Lexeme.openQuote? ('\\' :: '\n' :: cs) = (Lexeme.openQuote? ('\n' :: cs)).map (· + 1) := by
  rw [Lexeme.openQuote?, if_pos rfl]

/-- A quote that ends a literal ends it whatever follows; no backslash passes over the newline, so
otherwise the search starts again behind it. -/
lemma openQuote?_before (cs more : List Char) :
    Lexeme.openQuote? (cs ++ '\n' :: more) =
      (Lexeme.openQuote? cs).or ((Lexeme.openQuote? more).map (· + (cs.length + 1))) := by
  fun_induction Lexeme.openQuote? cs with
  | case1 => exact openQuote?_cons (by decide) (by decide)
  | case2 rest => rfl
  | case3 rest ih =>
    rw [List.cons_append, List.cons_append, openQuote?_backslash_newline, ← List.cons_append, ih,
      Option.map_or, Option.map_map]
    rfl
  | case4 c rest hc ih =>
    rw [List.cons_append, List.cons_append, openQuote?_backslash hc, ih, Option.map_or,
      Option.map_map]
    rfl
  | case5 c rest hq hpass ih =>
    by_cases hb : c = '\\'
    · obtain rfl : rest = [] := by
        cases rest with
        | nil => rfl
        | cons d rest => exact absurd rfl (hpass d rest hb)
      rw [hb, List.cons_append, List.nil_append, openQuote?_backslash_newline,
        openQuote?_cons (by decide) (by decide), Option.map_map]
      rfl
    · rw [List.cons_append, openQuote?_cons hq hb, ih, Option.map_or, Option.map_map]
      rfl

lemma openQuote?_eq_some (h : Lexeme.openQuote? cs = some n) :
    ∃ u v, cs = u ++ '"' :: v ∧ u.length = n := by
  fun_induction Lexeme.openQuote? cs generalizing n with
  | case1 => cases h
  | case2 rest =>
    cases h
    exact ⟨[], rest, rfl, rfl⟩
  | case3 rest ih =>
    obtain ⟨m, hm, rfl⟩ := Option.map_eq_some_iff.1 h
    obtain ⟨u, v, hcs, hlen⟩ := ih hm
    exact ⟨'\\' :: u, v, by rw [hcs, List.cons_append], by rw [List.length_cons, hlen]⟩
  | case4 c rest hc ih =>
    obtain ⟨m, hm, rfl⟩ := Option.map_eq_some_iff.1 h
    obtain ⟨u, v, hcs, hlen⟩ := ih hm
    exact ⟨'\\' :: c :: u, v, by rw [hcs, List.cons_append, List.cons_append],
      by rw [List.length_cons, List.length_cons, hlen]⟩
  | case5 c rest hq hpass ih =>
    obtain ⟨m, hm, rfl⟩ := Option.map_eq_some_iff.1 h
    obtain ⟨u, v, hcs, hlen⟩ := ih hm
    exact ⟨c :: u, v, by rw [hcs, List.cons_append], by rw [List.length_cons, hlen]⟩

lemma openQuote?_of_not_mem (h : '"' ∉ cs) : Lexeme.openQuote? cs = none := by
  fun_induction Lexeme.openQuote? cs with
  | case1 => rfl
  | case2 rest => exact absurd List.mem_cons_self h
  | case3 rest ih => rw [ih (List.not_mem_of_not_mem_cons h), Option.map_none]
  | case4 c rest hc ih =>
    rw [ih (List.not_mem_of_not_mem_cons (List.not_mem_of_not_mem_cons h)), Option.map_none]
  | case5 c rest hq hpass ih => rw [ih (List.not_mem_of_not_mem_cons h), Option.map_none]

/-- Without a quote that ends a literal, a backslash stands before every quote. -/
lemma backslash_of_openQuote?_eq_none {u v : List Char} (h : Lexeme.openQuote? cs = none)
    (hcs : cs = u ++ '"' :: v) : ∃ w, u = w ++ ['\\'] := by
  fun_induction Lexeme.openQuote? cs generalizing u with
  | case1 => simp at hcs
  | case2 rest => cases h
  | case3 rest ih =>
    rcases u with - | ⟨d, u⟩
    · simp at hcs
    · obtain ⟨w, rfl⟩ := ih (Option.map_eq_none_iff.1 h) (List.cons.inj hcs).2
      exact ⟨d :: w, rfl⟩
  | case4 c rest hc ih =>
    rcases u with - | ⟨d, - | ⟨e, u⟩⟩
    · simp at hcs
    · exact ⟨[], by rw [← (List.cons.inj hcs).1, List.nil_append]⟩
    · obtain ⟨w, rfl⟩ := ih (Option.map_eq_none_iff.1 h) (List.cons.inj (List.cons.inj hcs).2).2
      exact ⟨d :: e :: w, rfl⟩
  | case5 c rest hq hpass ih =>
    rcases u with - | ⟨d, u⟩
    · exact absurd (List.cons.inj hcs).1 hq
    · obtain ⟨w, rfl⟩ := ih (Option.map_eq_none_iff.1 h) (List.cons.inj hcs).2
      exact ⟨d :: w, rfl⟩

/-- The last quote is the last one of the second part, if that has one. -/
lemma lastQuote?_append (cs more : List Char) : Lexeme.lastQuote? (cs ++ more) =
    ((Lexeme.lastQuote? more).map (· + cs.length)).or (Lexeme.lastQuote? cs) := by
  induction cs with
  | nil => simp [Lexeme.lastQuote?]
  | cons c cs ih =>
    rw [List.cons_append, Lexeme.lastQuote?, ih, Lexeme.lastQuote?]
    cases Lexeme.lastQuote? more with
    | none => rfl
    | some n => rfl

lemma lastQuote?_eq_some (h : Lexeme.lastQuote? cs = some n) :
    ∃ u v, cs = u ++ '"' :: v ∧ u.length = n := by
  induction cs generalizing n with
  | nil => cases h
  | cons c cs ih =>
    rw [Lexeme.lastQuote?] at h
    cases hlast : Lexeme.lastQuote? cs with
    | none =>
      rw [hlast] at h
      by_cases hc : c = '"'
      · rw [if_pos hc] at h
        cases h
        exact ⟨[], cs, by rw [hc, List.nil_append], rfl⟩
      · rw [if_neg hc] at h
        cases h
    | some m =>
      rw [hlast] at h
      cases h
      obtain ⟨u, v, hcs, hlen⟩ := ih hlast
      exact ⟨c :: u, v, by rw [hcs, List.cons_append], by rw [List.length_cons, hlen]⟩

lemma lastQuote?_eq_none_iff : Lexeme.lastQuote? cs = none ↔ '"' ∉ cs := by
  induction cs with
  | nil => simp [Lexeme.lastQuote?]
  | cons c cs ih =>
    rw [Lexeme.lastQuote?]
    cases hlast : Lexeme.lastQuote? cs with
    | none =>
      have hcs := ih.1 hlast
      by_cases hc : c = '"'
      · simp [hc]
      · simp [hc, hcs, Ne.symm hc]
    | some m =>
      have hcs : '"' ∈ cs := by
        by_contra hno
        rw [ih.2 hno] at hlast
        cases hlast
      simp [hcs]

/-- A literal ends at a quote. -/
lemma textLength?_lt (h : Lexeme.textLength? cs = some n) : n < cs.length := by
  have hquote : ∃ u v, cs = u ++ '"' :: v ∧ u.length = n := by
    rw [Lexeme.textLength?] at h
    split at h
    · next m hm =>
      cases h
      exact openQuote?_eq_some hm
    · exact lastQuote?_eq_some h
  obtain ⟨u, v, rfl, rfl⟩ := hquote
  simp

lemma textLength?_before (h : (Lexeme.openQuote? cs).isSome ∨ '"' ∉ more) :
    Lexeme.textLength? (cs ++ '\n' :: more) = Lexeme.textLength? cs := by
  rw [Lexeme.textLength?, Lexeme.textLength?, openQuote?_before]
  cases hopen : Lexeme.openQuote? cs with
  | some n => rfl
  | none =>
    have hmore : '"' ∉ more := h.resolve_left (by simp [hopen])
    have hlast : Lexeme.lastQuote? ('\n' :: more) = none :=
      lastQuote?_eq_none_iff.2 (by simp [hmore])
    rw [openQuote?_of_not_mem hmore, lastQuote?_append, hlast]
    rfl

/-! ## Pieces -/

/-- A piece other than a run of newlines is the same before a newline, unless it is a text literal
that goes on to a quote behind it. -/
lemma piece_before (hc : c ≠ '\n')
    (hquote : c = '"' → (Lexeme.openQuote? rest).isSome ∨ '"' ∉ more) :
    piece c (rest ++ '\n' :: more) = piece c rest := by
  simp only [piece]
  split
  · rw [takeWhile_before (by decide)]
  split
  · rw [takeWhile_before (by decide)]
  split
  · rw [takeWhile_before (by decide)]
  split
  · next hq =>
    rw [textLength?_before (hquote hq)]
    cases hlen : Lexeme.textLength? rest with
    | none => rfl
    | some n =>
      simp only [List.take_append_of_le_length (Nat.le_of_lt (textLength?_lt hlen))]
  · exact numberPiece_before c rest more

lemma piece_newline (rest : List Char) :
    piece '\n' rest = (.newline, (rest.takeWhile (· = '\n')).length) := by
  rw [piece, if_neg (by decide), if_neg (by decide), if_pos rfl]

/-- A run of newlines ends before something else that follows. -/
lemma piece_newline_before (h : rest.drop (piece '\n' rest).2 ≠ []) :
    piece '\n' (rest ++ '\n' :: more) = piece '\n' rest := by
  rw [piece_newline] at h ⊢
  rw [piece_newline, takeWhile_append_of_drop_ne_nil h]

/-- The parts of a float are no longer than the text. -/
lemma floatParts?_le {whole fraction exponent : List Char} {point : Bool}
    (h : Lexeme.floatParts? cs = some (whole, point, fraction, exponent)) :
    whole.length + point.toNat + fraction.length + exponent.length ≤ cs.length := by
  have hsplit (ds : List Char) :
      (ds.takeWhile Text.isDigit).length + (ds.dropWhile Text.isDigit).length = ds.length := by
    rw [← List.length_append, List.takeWhile_append_dropWhile]
  have hcs := hsplit cs
  simp only [Lexeme.floatParts?] at h
  split at h
  · next more hdrop =>
    have hmore := hsplit more
    have hexp := exponentLength_le (more.dropWhile Text.isDigit)
    rw [hdrop, List.length_cons] at hcs
    split at h
    · cases h
    · cases h
      simp only [Bool.toNat_true, List.length_take]
      omega
  · split at h
    · cases h
    · cases h
      have hexp := exponentLength_le (cs.dropWhile Text.isDigit)
      simp only [Bool.toNat_false, List.length_nil, List.length_take]
      omega

lemma numberPiece_le (c : Char) (rest : List Char) : (numberPiece c rest).2 ≤ rest.length := by
  have hrun : (rest.takeWhile Text.isDigit).length ≤ rest.length :=
    (List.takeWhile_prefix Text.isDigit).length_le
  simp only [numberPiece, symbolPiece]
  split
  · next whole point fraction exponent hparts =>
    have hlen := floatParts?_le hparts
    rw [List.length_cons] at hlen
    exact Nat.sub_le_of_le_add hlen
  split
  · simp only [List.length_cons, Nat.add_sub_cancel]
    split <;> exact hrun
  split
  · next s hpair =>
    cases rest with
    | nil => cases hpair
    | cons d rest => simp
  · split <;> exact Nat.zero_le _

/-- A piece ends within the text. -/
lemma piece_le (c : Char) (rest : List Char) : (piece c rest).2 ≤ rest.length := by
  have hrun (p : Char → Bool) : (rest.takeWhile p).length ≤ rest.length :=
    (List.takeWhile_prefix p).length_le
  simp only [piece]
  split
  · exact hrun _
  split
  · exact hrun _
  split
  · exact hrun _
  split
  · exact hrun _
  split
  · split
    · next n hlen => exact textLength?_lt hlen
    · exact Nat.zero_le _
  · exact numberPiece_le c rest

/-! ## What is read -/

/-- The lexemes of a scan, and how it ended. -/
def Scan.said (scan : Scan) : List Lexeme × Ending := (scan.tokens.map (·.lexeme), scan.ending)

/-- The lexemes in a text, and how scanning it ends. -/
def said (cs : List Char) : List Lexeme × Ending := (scanFrom {} cs).said

lemma said_scanFrom (p : Place) (cs : List Char) : (scanFrom p cs).said = said cs := by
  rw [said]
  generalize ({} : Place) = q
  fun_induction scanFrom p cs generalizing q with
  | case1 p => rw [scanFrom]; rfl
  | case2 p c rest more hpiece => rw [scanFrom, hpiece]; rfl
  | case3 p c rest more digits hpiece => rw [scanFrom, hpiece]; rfl
  | case4 p c rest more l hpiece next scan ih =>
    rw [scanFrom, hpiece]
    exact congrArg (fun r => (l :: r.1, r.2)) (ih _)
  | case5 p c rest pc more hpiece next hillegal hlong hlexeme ih =>
    rw [scanFrom_gap (Piece.isGap_of_ne hillegal hlong hlexeme) hpiece]
    exact ih _

lemma said_nil : said [] = ([], .finished) := by
  rw [said, scanFrom]
  rfl

/-- The first piece of a text, and what is read behind it. -/
lemma said_cons (c : Char) (rest : List Char) :
    said (c :: rest) = match (piece c rest).1 with
      | .illegal => ([], .illegal c)
      | .tooLong digits => ([], .tooLong digits)
      | .lexeme l =>
        (l :: (said (rest.drop (piece c rest).2)).1, (said (rest.drop (piece c rest).2)).2)
      | _ => said (rest.drop (piece c rest).2) := by
  rw [← said_scanFrom (Place.after {} (piece c rest).1 (c :: rest.take (piece c rest).2))
    (rest.drop (piece c rest).2), said, scanFrom]
  rcases piece c rest with ⟨pc, n⟩
  cases pc <;> rfl

/-- Newlines are passed over. -/
lemma said_newlines (hcs : ∀ d ∈ cs, d = '\n') (more : List Char) :
    said (cs ++ more) = said more := by
  have hforget (offset : Nat) (cs : List Char) :
      said cs = ((scanAt offset cs).1.map Prod.fst, (scanAt offset cs).2) := by
    rw [← said_scanFrom ⟨1, 1, offset⟩, scanAt, Scan.said, Scan.seen, List.map_map]
    rfl
  induction cs with
  | nil => rfl
  | cons d cs ih =>
    rw [hcs d List.mem_cons_self, List.cons_append, hforget 0, scanAt_newline, ← hforget,
      ih fun e he => hcs e (List.mem_cons_of_mem d he)]

/-! ## Two texts with a newline between them -/

/-- Every text literal ends at a quote that no backslash passes over. -/
def textsClosed : List Char → Bool
  | [] => true
  | c :: rest =>
    (c ≠ '"' || (Lexeme.openQuote? rest).isSome) && textsClosed (rest.drop (piece c rest).2)
  termination_by cs => cs.length
  decreasing_by simp only [List.length_cons, List.length_drop]; omega

lemma textsClosed_cons : textsClosed (c :: rest) = true ↔
    (c = '"' → (Lexeme.openQuote? rest).isSome = true) ∧
      textsClosed (rest.drop (piece c rest).2) = true := by
  rw [textsClosed, Bool.and_eq_true, Bool.or_eq_true, decide_eq_true_iff, ← imp_iff_not_or]

/-- A run of newlines to the end of a text. -/
lemma newline_of_drop_eq_nil (h : rest.drop (piece '\n' rest).2 = []) :
    ∀ d ∈ '\n' :: rest, d = '\n' := by
  rw [piece_newline, List.drop_eq_nil_iff] at h
  have hrun : rest.takeWhile (· = '\n') = rest :=
    (List.takeWhile_prefix _).eq_of_length_le h
  intro d hd
  rcases List.mem_cons.1 hd with rfl | hd
  · rfl
  · rw [← hrun] at hd
    have hnewline := List.mem_takeWhile_imp hd
    exact of_decide_eq_true hnewline

/-- The first piece of a text is the same if a newline and more follow the text, unless all of the
text is a run of newlines, or the piece is a text literal that goes on. -/
lemma piece_join (hc : c = '\n' → rest.drop (piece c rest).2 ≠ [])
    (hquote : c = '"' → (Lexeme.openQuote? rest).isSome = true ∨ '"' ∉ more) :
    piece c (rest ++ '\n' :: more) = piece c rest := by
  by_cases hnewline : c = '\n'
  · subst hnewline
    exact piece_newline_before (hc rfl)
  · exact piece_before hnewline hquote

lemma drop_join (c : Char) (rest more : List Char) :
    (rest ++ more).drop (piece c rest).2 = rest.drop (piece c rest).2 ++ more :=
  List.drop_append_of_le_length (piece_le c rest)

/-- What stands before a newline is read as if the text ended there, and what stands after it as if
the text began there. -/
theorem said_join {a b : List Char} (h : textsClosed a = true ∨ '"' ∉ b)
    (hend : (said a).2 = .finished) :
    said (a ++ '\n' :: b) = ((said a).1 ++ (said b).1, (said b).2) := by
  induction a using textsClosed.induct with
  | case1 =>
    rw [List.nil_append, ← List.singleton_append, said_newlines (by simp), said_nil]
    rfl
  | case2 c rest ih =>
    by_cases hrun : c = '\n' ∧ rest.drop (piece c rest).2 = []
    · obtain ⟨rfl, hdrop⟩ := hrun
      have hall := newline_of_drop_eq_nil hdrop
      have ha := said_newlines hall []
      rw [List.append_nil, said_nil] at ha
      rw [said_newlines hall, ← List.singleton_append, said_newlines (by simp), ha]
      rfl
    · have hpiece : piece c (rest ++ '\n' :: b) = piece c rest := by
        refine piece_join (fun hc hdrop => hrun ⟨hc, hdrop⟩) fun hc => ?_
        exact h.imp_left fun hclosed => (textsClosed_cons.1 hclosed).1 hc
      have ih := ih (h.imp_left fun hclosed => (textsClosed_cons.1 hclosed).2)
      rw [List.cons_append, said_cons, hpiece, drop_join, said_cons c rest]
      rw [said_cons] at hend
      cases hpc : (piece c rest).1 with
      | illegal => simp [hpc] at hend
      | tooLong digits => simp [hpc] at hend
      | lexeme l =>
        simp only [hpc] at hend
        simp only [ih hend, List.cons_append]
      | _ =>
        simp only [hpc] at hend
        exact ih hend

lemma unescape_append {d : Char} (hd : d ≠ '"') (u v : List Char) :
    Lexeme.unescape (u ++ d :: v) = Lexeme.unescape u ++ Lexeme.unescape (d :: v) := by
  fun_induction Lexeme.unescape u with
  | case1 rest ih => rw [List.cons_append, List.cons_append, Lexeme.unescape, ih]; rfl
  | case2 c rest hpair ih =>
    rw [List.cons_append, Lexeme.unescape, ih, List.cons_append]
    intro rest' hc hrest
    cases rest with
    | nil => exact hd (List.cons.inj hrest).1
    | cons e rest => exact hpair rest hc (by rw [(List.cons.inj hrest).1])
  | case3 => rfl

/-- A text literal that only ends at a quote behind a backslash reaches a quote behind a newline. -/
lemma exists_textLength?_join (hopen : Lexeme.openQuote? rest = none) (hmore : '"' ∈ more) :
    ∃ m, Lexeme.textLength? (rest ++ '\n' :: more) = some m ∧ rest.length ≤ m := by
  rw [Lexeme.textLength?, openQuote?_before, hopen, Option.none_or]
  cases Lexeme.openQuote? more with
  | some k => exact ⟨k + (rest.length + 1), rfl, by omega⟩
  | none =>
    cases hlast : Lexeme.lastQuote? ('\n' :: more) with
    | some k =>
      refine ⟨k + rest.length, ?_, by omega⟩
      simp only [Option.map_none, lastQuote?_append, hlast, Option.map_some, Option.some_or]
    | none => exact absurd (List.mem_cons_of_mem _ hmore) (lastQuote?_eq_none_iff.1 hlast)

/-- It then says something else: the backslash is left out, and the quote is not. -/
lemma unescape_take_ne {m : Nat} (hopen : Lexeme.openQuote? rest = none)
    (h : Lexeme.textLength? rest = some n) (hm : rest.length ≤ m) (more : List Char) :
    Lexeme.unescape ((rest ++ more).take m) ≠ Lexeme.unescape (rest.take n) := by
  rw [Lexeme.textLength?, hopen] at h
  obtain ⟨u, v, hrest, hlen⟩ := lastQuote?_eq_some h
  obtain ⟨w, rfl⟩ := backslash_of_openQuote?_eq_none hopen hrest
  have hshort : rest.take n = w ++ ['\\'] := by rw [hrest, ← hlen, List.take_left]
  have hlong : (rest ++ more).take m = w ++ '\\' :: '"' :: (v ++ more.take (m - rest.length)) := by
    rw [List.take_append, List.take_of_length_le hm, hrest]
    simp
  rw [hshort, hlong, unescape_append (by decide), unescape_append (by decide)]
  intro heq
  have hhead := List.append_cancel_left heq
  simp [Lexeme.unescape] at hhead

lemma piece_quote_some (h : Lexeme.textLength? rest = some n) : piece '"' rest =
    (.lexeme (.text (String.ofList (Lexeme.unescape (rest.take n)))), n + 1) := by
  rw [piece, if_neg (by decide), if_neg (by decide), if_neg (by decide), if_neg (by decide),
    if_pos rfl]
  simp only [h]

lemma piece_quote_none (h : Lexeme.textLength? rest = none) : piece '"' rest = (.illegal, 0) := by
  rw [piece, if_neg (by decide), if_neg (by decide), if_neg (by decide), if_neg (by decide),
    if_pos rfl]
  simp only [h]

/-- If a text literal of the first text does not end at such a quote and there is a quote in the
second text, then the lexemes of the first text are not read. -/
theorem not_said_join {a b : List Char} (h : textsClosed a = false) (hb : '"' ∈ b)
    (hend : (said a).2 = .finished) : ¬(said a).1 <+: (said (a ++ '\n' :: b)).1 := by
  induction a using textsClosed.induct with
  | case1 => simp [textsClosed] at h
  | case2 c rest ih =>
    rw [said_cons] at hend
    rw [List.cons_append, said_cons, said_cons]
    by_cases hliteral : c = '"' ∧ Lexeme.openQuote? rest = none
    · obtain ⟨rfl, hopen⟩ := hliteral
      obtain ⟨m, hm, hle⟩ := exists_textLength?_join hopen hb
      cases hlen : Lexeme.textLength? rest with
      | none => simp [piece_quote_none hlen] at hend
      | some n =>
        rw [piece_quote_some hlen, piece_quote_some hm]
        intro hshared
        have hhead := (List.cons_prefix_cons.1 hshared).1
        have htext := String.ofList_injective (Lexeme.text.inj hhead)
        exact unescape_take_ne hopen hlen hle _ htext.symm
    · have hrest : textsClosed (rest.drop (piece c rest).2) = false := by
        rw [Bool.eq_false_iff, Ne, textsClosed_cons] at h
        rw [Bool.eq_false_iff]
        refine fun hclosed => h ⟨fun hc => ?_, hclosed⟩
        exact Option.isSome_iff_ne_none.2 fun hopen => hliteral ⟨hc, hopen⟩
      have hpiece : piece c (rest ++ '\n' :: b) = piece c rest := by
        refine piece_join (fun _ hdrop => ?_) fun hc => .inl ?_
        · rw [hdrop, textsClosed] at hrest
          cases hrest
        · exact Option.isSome_iff_ne_none.2 fun hopen => hliteral ⟨hc, hopen⟩
      rw [hpiece, drop_join]
      have ih := ih hrest
      cases hpc : (piece c rest).1 with
      | illegal => simp [hpc] at hend
      | tooLong digits => simp [hpc] at hend
      | lexeme l =>
        simp only [hpc] at hend
        exact fun hshared => ih hend (List.cons_prefix_cons.1 hshared).2
      | _ =>
        simp only [hpc] at hend
        exact ih hend

end Token

/-! ## Scripts -/

/-- Only a text that is scanned to its end is a script. -/
lemma Parse.ending_of_script {scan : Token.Scan} {s : Stmt} (h : (ofScan scan).script = .ok s) :
    scan.ending = .finished := by
  unfold ofScan at h
  split at h
  · cases h
  · dsimp only at h
    split at h
    · cases h
    · cases h
    · next hend => exact hend

namespace Script

/-- A script is read to its end, and its lexemes are those of the text. -/
lemma said_of_parse {line : Nat} {text : String} {s : Stmt}
    (h : (Script.parse line text).script = .ok s) :
    s.NormalScript ∧ Token.said text.toList = (s.scriptLexemes, .finished) := by
  obtain ⟨hnormal, hlexemes⟩ := Parse.normal_of_script h
  refine ⟨hnormal, ?_⟩
  rw [← Token.said_scanFrom ⟨line, 1, 0⟩, hlexemes, ← Parse.ending_of_script h]
  rfl

/-- A text whose lexemes are those of a script in normal form is read as that script. -/
lemma parse_of_said {text : String} {a : Stmt} (ha : a.NormalScript)
    (h : Token.said text.toList = (a.scriptLexemes, .finished)) (line : Nat) :
    ∃ s, (Script.parse line text).script = .ok s ∧ s.bare = a.bare := by
  rw [← Token.said_scanFrom ⟨line, 1, 0⟩, Token.Scan.said, Prod.mk.injEq] at h
  obtain ⟨s, hs, hbare⟩ := Parse.script_of_normal ha h.1.symm (Token.scan line text).line
  refine ⟨s, ?_, hbare⟩
  rw [Script.parse, Token.scan, ← hs, ← h.2]
  rfl

/-- Two scripts with a newline between them are the script of the statements of both, unless a text
literal of the first one ends only at a quote behind a backslash and there is a quote in the
second one. -/
theorem parse_join_iff {i j : Nat} {a b : String} {s t : Span} {as bs : List Stmt}
    (ha : (Script.parse i a).script = .ok (.block s as))
    (hb : (Script.parse j b).script = .ok (.block t bs)) (line : Nat) :
    (∃ script, (Script.parse line (a ++ "\n" ++ b)).script = .ok script ∧
        script.bare = (Stmt.block default (as ++ bs)).bare) ↔
      Token.textsClosed a.toList = true ∨ '"' ∉ b.toList := by
  obtain ⟨hna, hsa⟩ := said_of_parse ha
  obtain ⟨hnb, hsb⟩ := said_of_parse hb
  have hnormal : (Stmt.block default (as ++ bs)).NormalScript := by
    refine Stmt.normalAll_iff.2 fun x hx => ?_
    rcases List.mem_append.1 hx with hx | hx
    · exact Stmt.normalAll_iff.1 hna x hx
    · exact Stmt.normalAll_iff.1 hnb x hx
  have hlexemes : (Stmt.block default (as ++ bs)).scriptLexemes =
      Stmt.lexemesAll as ++ Stmt.lexemesAll bs := Stmt.lexemesAll_append as bs
  have htext : (a ++ "\n" ++ b).toList = a.toList ++ '\n' :: b.toList := by
    simp
  have hend : (Token.said a.toList).2 = .finished := by rw [hsa]
  constructor
  · rintro ⟨script, hscript, hbare⟩
    by_contra hcon
    rw [not_or, Bool.not_eq_true, not_not] at hcon
    refine Token.not_said_join hcon.1 hcon.2 hend ?_
    obtain ⟨-, hsaid⟩ := said_of_parse hscript
    rw [← Stmt.scriptLexemes_bare, hbare, Stmt.scriptLexemes_bare, hlexemes, htext] at hsaid
    rw [hsaid, hsa]
    exact List.prefix_append _ _
  · intro h
    refine parse_of_said hnormal ?_ line
    rw [htext, Token.said_join h hend, hsa, hsb, hlexemes]
    rfl

end Script

/-- A quote behind a backslash, and one in a comment. -/
def quotedText : String := "x = \"a\\\"b\"; # \""

def quotedStatements : List Stmt :=
  [.assign ⟨1, 1⟩ (.name ⟨1, 1⟩ "x") (.constant ⟨1, 1⟩ (.text "a\"b"))]

def printingText : String := "print \"y\";"

def printingStatements : List Stmt :=
  [.instruction ⟨1, 1⟩ "print" [.constant ⟨1, 1⟩ (.text "y")]]

theorem parse_join_quotedText :
    (Script.parse 1 quotedText).script = .ok (.block ⟨1, 1⟩ quotedStatements) ∧
      (Script.parse 1 printingText).script = .ok (.block ⟨1, 1⟩ printingStatements) ∧
      ∃ script, (Script.parse 1 (quotedText ++ "\n" ++ printingText)).script = .ok script ∧
        script.bare = (Stmt.block default (quotedStatements ++ printingStatements)).bare := by
  have ha : (Script.parse 1 quotedText).script = .ok (.block ⟨1, 1⟩ quotedStatements) := by cbv
  have hb : (Script.parse 1 printingText).script = .ok (.block ⟨1, 1⟩ printingStatements) := by cbv
  exact ⟨ha, hb, (Script.parse_join_iff ha hb 1).2 (.inl (by cbv))⟩

/-- A text literal that only ends at the quote behind a backslash. -/
def openText : String := "print \"x\\\";"

def openStatements : List Stmt :=
  [.instruction ⟨1, 1⟩ "print" [.constant ⟨1, 1⟩ (.text "x\\")]]

/-- It takes the quote of the text behind it for its end. -/
theorem parse_openText_join :
    (Script.parse 1 openText).script = .ok (.block ⟨1, 1⟩ openStatements) ∧
      (Script.parse 1 printingText).script = .ok (.block ⟨1, 1⟩ printingStatements) ∧
      (Script.parse 1 (openText ++ "\n" ++ printingText)).script =
        .error (.unexpected ⟨.name "y", 1, 8, 19⟩) := by
  exact ⟨by cbv, by cbv, by cbv⟩

end MatScript
