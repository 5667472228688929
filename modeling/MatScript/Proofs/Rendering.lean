import MatScript.Proofs.Spelling

/-! Scanning undoes rendering. Lexemes that are written one after another, with blanks, newlines or
comments between them, are read back one by one, each at its place in the text. -/
namespace MatScript

/-! ## Rendered texts -/

/-- What may separate lexemes. A comment goes to the end of its line. -/
inductive Separator where
  | space
  | tab
  | newline
  | comment (text : List Char) (one_line : '\n' ∉ text)

def Separator.chars : Separator → List Char
  | space => [' ']
  | tab => ['\t']
  | newline => ['\n']
  | comment text _ => '#' :: (text ++ ['\n'])

def gapChars (gap : List Separator) : List Char := gap.flatMap Separator.chars

/-- Lexemes as they are laid out in a text. -/
structure Rendering where
  lead : List Separator
  /-- Each lexeme with what stands after it. -/
  items : List (Spelling × List Separator)
  separated : ∀ item ∈ items.dropLast, item.2 ≠ []

namespace Rendering

def itemsChars (items : List (Spelling × List Separator)) : List Char :=
  items.flatMap fun item => item.1.chars ++ gapChars item.2

def text (r : Rendering) : String := String.ofList (gapChars r.lead ++ itemsChars r.items)

/-- The written lexemes of a part of a text that starts at the offset, each with its own offset. -/
def placesFrom (offset : Nat) : List (Spelling × List Separator) → List (Spelling × Nat)
  | [] => []
  | (s, gap) :: items =>
    (s, offset) :: placesFrom (offset + s.chars.length + (gapChars gap).length) items

/-- The written lexemes of the text, each with its offset. -/
def places (r : Rendering) : List (Spelling × Nat) := placesFrom (gapChars r.lead).length r.items

/-- What is found at an offset is what is written there. -/
def Found (found : Lexeme × Nat) (place : Spelling × Nat) : Prop :=
  place.1.Denotes found.1 ∧ found.2 = place.2

end Rendering

/-! ## Scanning from an offset -/

namespace Token

/-- The lexemes of a scan with their offsets, and how it ended. -/
def Scan.seen (scan : Scan) : List (Lexeme × Nat) × Ending :=
  (scan.tokens.map fun t => (t.lexeme, t.offset), scan.ending)

/-- What scanning from an offset finds. -/
def scanAt (offset : Nat) (cs : List Char) : List (Lexeme × Nat) × Ending :=
  (scanFrom ⟨1, 1, offset⟩ cs).seen

/-- The pieces that give no token and do not end the scan. -/
def Piece.IsGap (p : Piece) : Prop := p = .blank ∨ p = .newline ∨ p = .comment

lemma Piece.isGap_of_ne {pc : Piece} (hillegal : pc ≠ .illegal)
    (hlong : ∀ digits, pc ≠ .tooLong digits) (hlexeme : ∀ l, pc ≠ .lexeme l) : pc.IsGap := by
  cases pc with
  | blank => exact .inl rfl
  | newline => exact .inr (.inl rfl)
  | comment => exact .inr (.inr rfl)
  | lexeme l => exact absurd rfl (hlexeme l)
  | tooLong digits => exact absurd rfl (hlong digits)
  | illegal => exact absurd rfl hillegal

variable {c : Char} {cs rest : List Char} {p : Place} {n : Nat}

lemma scanFrom_gap {pc : Piece} (hpc : pc.IsGap) (h : piece c rest = (pc, n)) :
    scanFrom p (c :: rest) = scanFrom (p.after pc (c :: rest.take n)) (rest.drop n) := by
  rw [scanFrom, h]
  rcases hpc with rfl | rfl | rfl <;> rfl

lemma scanFrom_lexeme {l : Lexeme} (h : piece c rest = (.lexeme l, n)) :
    (scanFrom p (c :: rest)).seen =
      ((l, p.offset) :: (scanFrom (p.after (.lexeme l) (c :: rest.take n)) (rest.drop n)).seen.1,
        (scanFrom (p.after (.lexeme l) (c :: rest.take n)) (rest.drop n)).seen.2) := by
  rw [scanFrom, h]
  rfl

/-- Which lexemes are found, and at which offsets, does not depend on lines and columns. -/
lemma seen_congr (p q : Place) (cs : List Char) (h : p.offset = q.offset) :
    (scanFrom p cs).seen = (scanFrom q cs).seen := by
  have hafter (p q : Place) (h : p.offset = q.offset) (pc : Piece) (cs : List Char) :
      (p.after pc cs).offset = (q.after pc cs).offset := by simp only [Place.after, h]
  fun_induction scanFrom p cs generalizing q with
  | case1 p => rw [scanFrom]; rfl
  | case2 p c rest more hpiece => rw [scanFrom, hpiece]; rfl
  | case3 p c rest more digits hpiece => rw [scanFrom, hpiece]; rfl
  | case4 p c rest more l hpiece next scan ih =>
    rw [scanFrom_lexeme hpiece, ← ih _ (hafter p q h _ _), ← h]
    rfl
  | case5 p c rest pc more hpiece next hillegal hlong hlexeme ih =>
    rw [scanFrom_gap (Piece.isGap_of_ne hillegal hlong hlexeme) hpiece]
    exact ih _ (hafter p q h _ _)

lemma seen_scanFrom (p : Place) (cs : List Char) : (scanFrom p cs).seen = scanAt p.offset cs :=
  seen_congr p ⟨1, 1, p.offset⟩ cs rfl

lemma scanAt_nil : scanAt n [] = ([], .finished) := by
  rw [scanAt, scanFrom]
  rfl

/-- A piece that gives no token is passed over. -/
lemma scanAt_gap {pc : Piece} (hpc : pc.IsGap) (h : piece c (cs ++ rest) = (pc, cs.length)) :
    scanAt n (c :: (cs ++ rest)) = scanAt (n + (c :: cs).length) rest := by
  rw [scanAt, scanFrom_gap hpc h, seen_scanFrom, List.take_left, List.drop_left]
  rfl

/-- A lexeme is found at the offset where it starts. -/
lemma scanAt_lexeme {l : Lexeme} (h : piece c (cs ++ rest) = (.lexeme l, cs.length)) :
    scanAt n (c :: (cs ++ rest)) = ((l, n) :: (scanAt (n + (c :: cs).length) rest).1,
      (scanAt (n + (c :: cs).length) rest).2) := by
  rw [scanAt, scanFrom_lexeme h, seen_scanFrom, List.take_left, List.drop_left]
  rfl

/-! ## Separators -/

/-- A run of characters that are read together may be read one by one. -/
lemma scanAt_run {pc : Piece} (belongs : Char → Bool) (hpc : pc.IsGap)
    (hrun : ∀ c rest, belongs c = true → piece c rest = (pc, (rest.takeWhile belongs).length))
    (hc : belongs c = true) : scanAt n (c :: rest) = scanAt (n + 1) rest := by
  have hsplit : ∀ c rest, belongs c = true → ∀ n, scanAt n (c :: rest) =
      scanAt (n + (rest.takeWhile belongs).length + 1) (rest.dropWhile belongs) := by
    intro c rest hc n
    have hpiece := hrun c rest hc
    rw [← List.takeWhile_append_dropWhile (p := belongs) (l := rest)] at hpiece
    nth_rewrite 1 [← List.takeWhile_append_dropWhile (p := belongs) (l := rest)]
    rw [scanAt_gap hpc (by simpa using hpiece)]
    rfl
  rw [hsplit c rest hc]
  cases rest with
  | nil => rfl
  | cons d rest =>
    by_cases hd : belongs d = true
    · rw [hsplit d rest hd, List.takeWhile_cons_of_pos hd, List.dropWhile_cons_of_pos hd,
        List.length_cons]
      congr 1
      omega
    · rw [List.takeWhile_cons_of_neg hd, List.dropWhile_cons_of_neg hd, List.length_nil]

lemma scanAt_blank (hc : c = ' ' ∨ c = '\t') : scanAt n (c :: rest) = scanAt (n + 1) rest := by
  refine scanAt_run (fun d => d = ' ' ∨ d = '\t') (.inl rfl) (fun d rest hd => ?_)
    (decide_eq_true hc)
  rw [piece, if_pos (of_decide_eq_true hd)]

lemma scanAt_newline : scanAt n ('\n' :: rest) = scanAt (n + 1) rest := by
  refine scanAt_run (· = '\n') (.inr (.inl rfl)) (fun d rest hd => ?_) (by decide)
  obtain rfl := of_decide_eq_true hd
  rw [piece, if_neg (by decide), if_neg (by decide), if_pos rfl]

/-- A comment ends before the end of its line. -/
lemma scanAt_comment {text : List Char} (h : '\n' ∉ text) :
    scanAt n ('#' :: (text ++ '\n' :: rest)) = scanAt (n + (text.length + 1)) ('\n' :: rest) := by
  have hrun : (text ++ '\n' :: rest).takeWhile (· ≠ '\n') = text := by
    refine takeWhile_append_eq (fun c hc => decide_eq_true ?_) ?_
    · rintro rfl
      exact h hc
    · rintro c ⟨⟩
      decide
  refine scanAt_gap (.inr (.inr rfl)) ?_
  rw [piece, if_neg (by decide), if_neg (by decide), if_neg (by decide), if_pos rfl, hrun]

lemma scanAt_separator (s : Separator) :
    scanAt n (s.chars ++ rest) = scanAt (n + s.chars.length) rest := by
  cases s with
  | space => exact scanAt_blank (.inl rfl)
  | tab => exact scanAt_blank (.inr rfl)
  | newline => exact scanAt_newline
  | comment text h =>
    rw [Separator.chars, List.cons_append, List.append_assoc, List.singleton_append,
      scanAt_comment h, scanAt_newline, List.length_cons, List.length_append, List.length_singleton]
    congr 1

/-- Whatever separates lexemes is passed over. -/
lemma scanAt_gapChars (gap : List Separator) :
    scanAt n (gapChars gap ++ rest) = scanAt (n + (gapChars gap).length) rest := by
  induction gap generalizing n with
  | nil => rfl
  | cons s gap ih =>
    rw [gapChars, List.flatMap_cons, ← gapChars, List.append_assoc, scanAt_separator, ih,
      List.length_append, Nat.add_assoc]

/-- A written lexeme before a gap is found where it starts. -/
lemma scanAt_spelling (s : Spelling) (h : AtGap rest) :
    ∃ l, s.Denotes l ∧ scanAt n (s.chars ++ rest) =
      ((l, n) :: (scanAt (n + s.chars.length) rest).1, (scanAt (n + s.chars.length) rest).2) := by
  obtain ⟨c, cs, l, hchars, hpiece, hl⟩ := s.piece_chars h
  refine ⟨l, hl, ?_⟩
  rw [hchars]
  exact scanAt_lexeme hpiece

end Token

/-! ## Renderings -/

lemma atGap_gapChars {gap : List Separator} (h : gap ≠ []) (rest : List Char) :
    AtGap (gapChars gap ++ rest) := by
  obtain ⟨s, gap, rfl⟩ := List.exists_cons_of_ne_nil h
  cases s <;> rintro c ⟨⟩ <;> rfl

namespace Rendering

open Token

/-- The lexemes of a part of a rendering are found one by one. -/
lemma scanAt_itemsChars {items : List (Spelling × List Separator)}
    (h : ∀ item ∈ items.dropLast, item.2 ≠ []) (n : Nat) :
    List.Forall₂ Found (scanAt n (itemsChars items)).1 (placesFrom n items) ∧
      (scanAt n (itemsChars items)).2 = .finished := by
  induction items generalizing n with
  | nil =>
    rw [itemsChars, List.flatMap_nil, scanAt_nil]
    exact ⟨.nil, rfl⟩
  | cons item items ih =>
    obtain ⟨s, gap⟩ := item
    have hgap : AtGap (gapChars gap ++ itemsChars items) := by
      cases items with
      | nil =>
        -- after the last lexeme the text may end
        by_cases hne : gap = []
        · subst hne
          rintro c ⟨⟩
        · exact atGap_gapChars hne _
      | cons next items => exact atGap_gapChars (h _ List.mem_cons_self) _
    have hrest : ∀ item ∈ items.dropLast, item.2 ≠ [] := by
      intro item hitem
      have hne : items ≠ [] := by
        rintro rfl
        cases hitem
      refine h item ?_
      rw [List.dropLast_cons_of_ne_nil hne]
      exact List.mem_cons_of_mem _ hitem
    obtain ⟨l, hl, hscan⟩ := scanAt_spelling (n := n) s hgap
    obtain ⟨hfound, hending⟩ := ih hrest (n + s.chars.length + (gapChars gap).length)
    rw [itemsChars, List.flatMap_cons, ← itemsChars, List.append_assoc, hscan, scanAt_gapChars]
    exact ⟨.cons ⟨hl, rfl⟩ hfound, hending⟩

/-- Scanning undoes rendering: it comes to its end and gives exactly one token for each lexeme, in
their order, with what is written and with its offset in the text. -/
theorem scan_text (r : Rendering) (line : Nat) :
    (scan line r.text).ending = .finished ∧
      List.Forall₂ (fun t place => place.1.Denotes t.lexeme ∧ t.offset = place.2)
        (scan line r.text).tokens r.places := by
  have hseen : (scan line r.text).seen =
      scanAt (gapChars r.lead).length (itemsChars r.items) := by
    rw [scan, text, String.toList_ofList, seen_scanFrom, scanAt_gapChars, Nat.zero_add]
  obtain ⟨hfound, hending⟩ := scanAt_itemsChars r.separated (gapChars r.lead).length
  rw [← hseen] at hfound hending
  exact ⟨hending, List.forall₂_map_left_iff.1 hfound⟩

/-- What is found at the places of a text is determined by it. -/
lemma eq_of_found {xs ys : List (Lexeme × Nat)} {places : List (Spelling × Nat)}
    (hx : List.Forall₂ Found xs places) (hy : List.Forall₂ Found ys places) : xs = ys := by
  induction hx generalizing ys with
  | nil =>
    cases hy
    rfl
  | cons hx _ ih =>
    cases hy with
    | cons hy hys => rw [ih hys, Prod.ext (hx.1.unique hy.1) (hx.2.trans hy.2.symm)]

/-- A name, a symbol before a comment, a text with a quote in it, an integer, and a float that ends
the rendering. -/
def sample : Rendering where
  lead := [.tab]
  items := [
    (.name 'x' ['1'] (by decide) (List.all_eq_true.mp (by decide)) (by intro k; cases k <;> decide),
      [.space, .newline]),
    (.symbol .assignPlus, [.comment ['"', 'e', '5'] (by decide)]),
    (.text ['a', '"', '#'] (by decide), [.space]),
    (.int ['0', '4', '2'] (by decide) (List.all_eq_true.mp (by decide)) (by decide), [.tab]),
    (.pointed ['1'] ['5']
      (some ⟨'e', some '+', ['3'], .inl rfl, by rintro s ⟨⟩; exact .inr rfl, by decide,
        List.all_eq_true.mp (by decide)⟩)
      (List.all_eq_true.mp (by decide)) (List.all_eq_true.mp (by decide)) (.inl (by decide)), [])]
  separated := by decide

theorem scan_sample : sample.text = "\tx1 \n+=#\"e5\n\"a\\\"#\" 042\t1.5e+3" ∧
    (scan 1 sample.text).ending = .finished ∧
    (scan 1 sample.text).tokens.map (fun t => (t.lexeme, t.offset)) =
      [(.name "x1", 1), (.symbol .assignPlus, 5), (.text "a\"#", 12), (.int 42, 19),
        (.float 1500, 23)] := by
  obtain ⟨hending, htokens⟩ := scan_text sample 1
  have hfloat : Number.IsNearest ((15 : ℕ) * 10 ^ (2 : ℤ)) 1500 :=
    Number.Decimal.isNearest_toFloat ⟨15, 2⟩
  refine ⟨by decide, hending, eq_of_found (List.forall₂_map_left_iff.2 htokens) ?_⟩
  exact .cons ⟨rfl, rfl⟩ (.cons ⟨rfl, rfl⟩ (.cons ⟨rfl, rfl⟩ (.cons ⟨rfl, rfl⟩
    (.cons ⟨⟨1500, rfl, hfloat⟩, rfl⟩ .nil))))

end Rendering

end MatScript
