import MatScript.Command
import MatScript.Proofs.FirstFault
import MatScript.Proofs.Rendering
import MatScript.Proofs.Reporting
import MatScript.Proofs.TypeNames

/-! Messages without terminal codes. The faults of a script repeat its names, operators, functions
and instructions, and nothing else of its text, so no message about types has an escape in it and
all of it is written. -/
namespace MatScript

section

variable {α : Type} {x : α} {separator : List α} {ls : List (List α)}

lemma mem_of_mem_intercalate (h : x ∈ separator.intercalate ls) :
    x ∈ separator ∨ ∃ l ∈ ls, x ∈ l := by
  induction ls with
  | nil => simp at h
  | cons l ls ih =>
    cases ls with
    | nil => exact .inr ⟨l, List.mem_cons_self, by simpa using h⟩
    | cons l' ls =>
      rw [List.intercalate_cons_cons, List.mem_append, List.mem_append] at h
      rcases h with (h | h) | h
      · exact .inr ⟨l, List.mem_cons_self, h⟩
      · exact .inl h
      · rcases ih h with h | ⟨m, hm, h⟩
        · exact .inl h
        · exact .inr ⟨m, List.mem_cons_of_mem l hm, h⟩

lemma mem_intercalate_of_mem {l : List α} (hl : l ∈ ls) (hx : x ∈ l) :
    x ∈ separator.intercalate ls := by
  induction ls with
  | nil => cases hl
  | cons m ls ih =>
    cases ls with
    | nil =>
      obtain rfl := List.mem_singleton.1 hl
      simpa using hx
    | cons m' ls =>
      rw [List.intercalate_cons_cons, List.mem_append, List.mem_append]
      rcases List.mem_cons.1 hl with rfl | hl
      · exact .inl (.inl hx)
      · exact .inr (ih hl)

end

/-! ## Texts without escapes -/

namespace Text

/-- No code for the terminal can start in the text. -/
def NoEscape (s : String) : Prop := '\x1b' ∉ s.toList

instance (s : String) : Decidable (NoEscape s) := inferInstanceAs (Decidable ('\x1b' ∉ s.toList))

variable {s t : String}

lemma noEscape_append : NoEscape (s ++ t) ↔ NoEscape s ∧ NoEscape t := by
  simp [NoEscape, not_or]

lemma noEscape_intercalate {separator : String} {l : List String} (hs : NoEscape separator)
    (hl : ∀ s ∈ l, NoEscape s) : NoEscape (separator.intercalate l) := by
  intro h
  rw [String.toList_intercalate] at h
  rcases mem_of_mem_intercalate h with h | ⟨cs, hcs, h⟩
  · exact hs h
  · obtain ⟨s, hmem, rfl⟩ := List.mem_map.1 hcs
    exact hl s hmem h

/-- No code starts before the first escape. -/
lemma dropCodes_append (h : NoEscape s) : dropCodes (s ++ t) = s ++ dropCodes t := by
  have hchars (cs ds : List Char) (h : '\x1b' ∉ cs) :
      dropCodesFrom [] (cs ++ ds) = cs ++ dropCodesFrom [] ds := by
    induction cs with
    | nil => rfl
    | cons c cs ih =>
      obtain ⟨hc, hcs⟩ := not_or.1 (List.mem_cons.not.1 h)
      rw [List.cons_append, dropCodesFrom, if_neg (Ne.symm hc), ih hcs, List.cons_append]
  rw [dropCodes, String.toList_append, hchars s.toList t.toList h, String.ofList_append,
    String.ofList_toList, dropCodes]

lemma dropCodes_of_noEscape (h : NoEscape s) : dropCodes s = s := by
  simpa [dropCodes, dropCodesFrom] using dropCodes_append (t := "") h

lemma noEscape_nat (n : Nat) : NoEscape (toString n) := fun h =>
  absurd (isDigit_of_mem_toString h) (by decide)

lemma noEscape_int (n : Int) : NoEscape (toString n) := by
  intro h
  rcases mem_toString_int h with h | h
  · exact absurd h (by decide)
  · exact absurd h (by decide)

end Text

open Text Typing

namespace Ty

lemma noEscape_display (t : Ty) : NoEscape t.display := by
  have hdim (d : Option Int) : NoEscape (displayDim d) := by
    cases d with
    | none => decide
    | some d => exact noEscape_int d
  have hdims : NoEscape (",".intercalate (t.shape.map displayDim)) := by
    refine noEscape_intercalate (by decide) fun s hs => ?_
    obtain ⟨d, -, rfl⟩ := List.mem_map.1 hs
    exact hdim d
  have hall (base : String) (hbase : NoEscape base) : NoEscape (if t.isScalar then base
      else base ++ "[" ++ ",".intercalate (t.shape.map displayDim) ++ "]") := by
    split
    · exact hbase
    · have hopen := noEscape_append.2 ⟨hbase, (by decide : NoEscape "[")⟩
      exact noEscape_append.2 ⟨noEscape_append.2 ⟨hopen, hdims⟩, by decide⟩
  refine hall _ ?_
  split
  · next b _ => cases b <;> decide
  · decide

lemma noEscape_displayTuple (ts : List Ty) : NoEscape (displayTuple ts) := by
  have hall : NoEscape (", ".intercalate (ts.map display)) := by
    refine noEscape_intercalate (by decide) fun s hs => ?_
    obtain ⟨t, -, rfl⟩ := List.mem_map.1 hs
    exact t.noEscape_display
  rw [displayTuple.eq_def]
  split
  · exact noEscape_append.2 ⟨noEscape_append.2 ⟨by decide, noEscape_display _⟩, by decide⟩
  · exact noEscape_append.2 ⟨noEscape_append.2 ⟨by decide, hall⟩, by decide⟩

end Ty

namespace Typing

variable {words : String → Prop} {message : String}

/-- A message about types has no escape in it, unless a word of the script has one. -/
lemma Complaint.noEscape (h : Complaint words message) (hw : ∀ w, words w → NoEscape w) :
    NoEscape message := by
  have htext : ∀ s : String, toString s = s := fun _ => rfl
  cases h with
  | mixedItems _ | wrongCount _ =>
    simp only [noEscape_append, noEscape_nat]
    decide +kernel
  | unequalDims hs _ _ _ | unequalRanks hs _ _ =>
    simp only [noEscape_append, noEscape_nat, noEscape_int, htext, hw _ hs]
    decide +kernel
  | wrongPair hs a b =>
    simp only [noEscape_append, htext, hw _ hs, Ty.noEscape_display]
    decide +kernel
  | wrongOperands hs ts =>
    simp only [noEscape_append, htext, hw _ hs, Ty.noEscape_displayTuple]
    decide +kernel
  | unknownOperator hs | undefinedName hs =>
    simp only [noEscape_append, htext, hw _ hs]
    decide +kernel
  | wrongArgument hf _ t =>
    simp only [noEscape_append, noEscape_nat, htext, hw _ hf, Ty.noEscape_display]
    decide +kernel
  | wrongElement value element =>
    simp only [noEscape_append, htext, Ty.noEscape_display]
    decide +kernel
  | _ => decide +kernel

end Typing

/-! ## The words of a script -/

namespace Token

variable {c : Char} {rest : List Char} {n : Nat} {id : String}

lemma noEscape_of_ofWord {cs : List Char} (hcs : '\x1b' ∉ cs) (h : Lexeme.ofWord cs = .name id) :
    NoEscape id := by
  unfold Lexeme.ofWord at h
  dsimp only at h
  split at h
  · cases h
  · cases h
    rwa [NoEscape, String.toList_ofList]

lemma noEscape_of_piece (h : piece c rest = (.lexeme (.name id), n)) : NoEscape id := by
  unfold piece at h
  split at h
  · cases h
  · split at h
    · next hc =>
      have hword : '\x1b' ∉ c :: rest.takeWhile Lexeme.isNamePart := by
        intro hmem
        rcases List.mem_cons.1 hmem with rfl | hmem
        · exact absurd hc (by decide)
        · exact absurd (List.mem_takeWhile_imp hmem) (by decide)
      exact noEscape_of_ofWord hword (Piece.lexeme.inj (Prod.mk.inj h).1)
    · split at h
      · cases h
      · split at h
        · cases h
        · split at h
          · split at h <;> cases h
          · exact absurd (congrArg Prod.fst h) (numberPiece_ne (.inr ⟨id, rfl⟩))

/-- What holds of the lexemes of all pieces holds of those of all tokens. -/
lemma lexeme_of_scanFrom {P : Lexeme → Prop}
    (h : ∀ c rest l n, piece c rest = (.lexeme l, n) → P l) (p : Place) (cs : List Char) :
    ∀ t ∈ (scanFrom p cs).tokens, P t.lexeme := by
  fun_induction scanFrom p cs with
  | case1 p => simp
  | case2 p c rest more hpiece => simp
  | case3 p c rest more digits hpiece => simp
  | case4 p c rest more l hpiece next scan ih =>
    exact List.forall_mem_cons.2 ⟨h c rest l more hpiece, ih⟩
  | case5 p c rest pc more hpiece next hillegal hlong hlexeme ih => exact ih

/-- The names in a text have only letters, digits and underscores, so no escapes. -/
lemma noEscape_of_scanFrom (p : Place) (cs : List Char) :
    ∀ t ∈ (scanFrom p cs).tokens, ∀ id, t.lexeme = .name id → NoEscape id := by
  refine lexeme_of_scanFrom (P := fun l => ∀ id, l = .name id → NoEscape id) ?_ p cs
  rintro c rest _ n hpiece id rfl
  exact noEscape_of_piece hpiece

end Token

/-- The texts that a message may repeat of a script with these lexemes. -/
def IsWord (ls : List Lexeme) (w : String) : Prop :=
  w = "u-" ∨ (∃ s : Symbol, w = s.spelling) ∨ (∃ k : Keyword, w = k.spelling) ∨ .name w ∈ ls

section

variable {ls : List Lexeme}

lemma IsWord.noEscape {w : String} (h : IsWord ls w) (hls : ∀ id, .name id ∈ ls → NoEscape id) :
    NoEscape w := by
  rcases h with rfl | ⟨s, rfl⟩ | ⟨k, rfl⟩ | h
  · decide
  · cases s <;> decide
  · cases k <;> decide
  · exact hls w h

lemma OperandsFit.isWord {symbol : String} {levels : List Nat} (h : OperandsFit symbol levels) :
    IsWord ls symbol := by
  rcases operator_of_operandsFit h with h | h | ⟨s, -, h⟩
  · exact .inl h
  · exact .inr (.inl ⟨_, h⟩)
  · exact .inr (.inl ⟨s, h⟩)

lemma ArgumentsFit.isWord {name : String} {count : Nat} (h : ArgumentsFit name count) :
    IsWord ls name := by
  rcases h with ⟨h, -⟩ | ⟨h, -⟩ | ⟨⟨k, -, h⟩, -⟩ <;> exact .inr (.inr (.inl ⟨_, h⟩))

lemma Lexeme.subset_of_separated {items : List (List Lexeme)} (h : separated items ⊆ ls) :
    ∀ l ∈ items, l ⊆ ls :=
  fun _ hl _ hx => h (mem_intercalate_of_mem hl hx)

lemma Lexeme.subset_of_ofOperator {symbol : String} {operands : List Expr}
    (hfit : OperandsFit symbol (operands.map Expr.level))
    (h : ofOperator symbol (Expr.lexemesAll operands) ⊆ ls) :
    ∀ l ∈ Expr.lexemesAll operands, l ⊆ ls := by
  rw [Expr.lexemesAll_eq_map] at h ⊢
  match operands, hfit with
  | [e], _ =>
    rw [List.map_singleton, ofOperator] at h
    rw [List.map_singleton, List.forall_mem_singleton]
    split at h
    · exact (List.cons_subset.1 h).2
    · exact (List.append_subset.1 h).1
  | [e, e'], _ =>
    simp only [List.map_cons, List.map_nil, ofOperator, List.append_subset] at h
    simpa using ⟨h.1.1, h.2⟩

mutual

/-- The words of a written expression are spelled in it. -/
lemma Expr.isWord : ∀ e : Expr, e.Normal → e.lexemes ⊆ ls → ∀ w ∈ e.words, IsWord ls w
  | .constant _ _, _, _ => by simp [Expr.words]
  | .vector _ items, h, hls => by
    simp only [Expr.lexemes, List.append_subset, List.cons_subset] at hls
    exact Expr.isWord_all items h.2 (Lexeme.subset_of_separated hls.1.2)
  | .range _ _ _, h, _ => h.elim
  | .operator _ _ operands, h, hls => by
    rw [Expr.Normal] at h
    rw [Expr.words, List.forall_mem_cons]
    exact ⟨h.1.isWord, Expr.isWord_all operands h.2 (Lexeme.subset_of_ofOperator h.1 hls)⟩
  | .call _ _ arguments, h, hls => by
    simp only [Expr.lexemes, List.append_subset, List.cons_subset] at hls
    obtain ⟨⟨k, -, hk⟩, -, hargs⟩ := h
    rw [Expr.words, List.forall_mem_cons]
    exact ⟨.inr (.inr (.inl ⟨k, hk⟩)),
      Expr.isWord_all arguments hargs (Lexeme.subset_of_separated hls.1.2.2)⟩
  | .name _ id, _, hls => by
    rw [Expr.words, List.forall_mem_singleton]
    exact .inr (.inr (.inr (hls (List.mem_singleton.2 rfl))))
  | .element _ _ _ indices _, h, hls => by
    simp only [Expr.lexemes, List.append_subset, List.cons_subset] at hls
    rw [Expr.words, List.forall_mem_cons]
    exact ⟨.inr (.inr (.inr hls.1.1)),
      Expr.isWord_all indices h.2 (Lexeme.subset_of_separated hls.1.2.2)⟩
  | .gap _ _, h, _ => h.elim

lemma Expr.isWord_all : ∀ es : List Expr, Expr.NormalAll es →
    (∀ l ∈ Expr.lexemesAll es, l ⊆ ls) → ∀ w ∈ Expr.wordsAll es, IsWord ls w
  | [], _, _ => by simp [Expr.wordsAll]
  | e :: es, h, hls => by
    rw [Expr.lexemesAll, List.forall_mem_cons] at hls
    rw [Expr.wordsAll, List.forall_mem_append]
    exact ⟨e.isWord h.1 hls.1, Expr.isWord_all es h.2 hls.2⟩

end

lemma Expr.NormalRange.isWord {range : Expr} (h : range.NormalRange) (hls : range.lexemes ⊆ ls) :
    ∀ w ∈ range.words, IsWord ls w := by
  cases range with
  | range _ start stop =>
    simp only [Expr.lexemes, List.append_subset, List.cons_subset] at hls
    rw [Expr.words, List.forall_mem_append]
    exact ⟨start.isWord h.1 hls.1, stop.isWord h.2 hls.2.2⟩
  | _ => exact h.elim

mutual

/-- The words of a written statement are spelled in it. -/
lemma Stmt.isWord : ∀ s : Stmt, s.Normal → s.lexemes ⊆ ls → ∀ w ∈ s.words, IsWord ls w
  | .block _ body, h, hls => by
    simp only [Stmt.lexemes, List.append_subset, List.cons_subset] at hls
    exact Stmt.isWord_all body h hls.1.2
  | .assign _ target value, h, hls => by
    simp only [Stmt.lexemes, List.append_subset, List.cons_subset] at hls
    rw [Stmt.words, List.forall_mem_append]
    exact ⟨target.isWord h.2.1 hls.1.1, value.isWord h.2.2 hls.1.2.2⟩
  | .update _ _ target value, h, hls => by
    simp only [Stmt.lexemes, List.append_subset] at hls
    obtain ⟨⟨s, -, -, hs⟩, -, ht, hv⟩ := h
    rw [Stmt.words, List.forall_mem_cons, List.forall_mem_append]
    exact ⟨.inr (.inl ⟨s, hs⟩), target.isWord ht hls.1.1.1, value.isWord hv hls.1.2⟩
  | .instruction _ _ arguments, h, hls => by
    simp only [Stmt.lexemes, List.append_subset] at hls
    rw [Stmt.words, List.forall_mem_cons]
    exact ⟨h.1.isWord, Expr.isWord_all arguments h.2 (Lexeme.subset_of_separated hls.1.2)⟩
  | .whileLoop _ condition body, h, hls | .ifThen _ condition body, h, hls => by
    simp only [Stmt.lexemes, List.append_subset, List.cons_subset] at hls
    rw [Stmt.words, List.forall_mem_append]
    exact ⟨condition.isWord h.1 hls.1.2.2, body.isWord h.2 hls.2.2⟩
  | .forLoop _ _ _ range body, h, hls => by
    simp only [Stmt.lexemes, List.append_subset, List.cons_subset] at hls
    rw [Stmt.words, List.forall_mem_append]
    exact ⟨h.1.isWord hls.1.2.2.2, body.isWord h.2 hls.2⟩
  | .ifElse _ condition yes no, h, hls => by
    simp only [Stmt.lexemes, List.append_subset, List.cons_subset] at hls
    obtain ⟨hc, hyes, -, hno⟩ := h
    rw [Stmt.words, List.forall_mem_append, List.forall_mem_append]
    exact ⟨condition.isWord hc hls.1.1.2.2, yes.isWord hyes hls.1.2.2, no.isWord hno hls.2.2⟩
  | .expr _, h, _ => h.elim

lemma Stmt.isWord_all : ∀ ss : List Stmt, Stmt.NormalAll ss → Stmt.lexemesAll ss ⊆ ls →
    ∀ w ∈ Stmt.wordsAll ss, IsWord ls w
  | [], _, _ => by simp [Stmt.wordsAll]
  | s :: ss, h, hls => by
    rw [Stmt.lexemesAll, List.append_subset] at hls
    rw [Stmt.wordsAll, List.forall_mem_append]
    exact ⟨s.isWord h.1 hls.1, Stmt.isWord_all ss h.2 hls.2⟩

end

end

/-! ## The faults of a script -/

namespace Typing

lemma Message.noEscape {words : String → Prop} {message : String} (h : Message words message)
    (hw : ∀ w, words w → NoEscape w) : NoEscape message := by
  rcases h with h | ⟨name, hname, rfl⟩
  · exact h.noEscape hw
  · have htext : toString name = name := rfl
    simp only [noEscape_append, htext, hw _ hname]
    decide

lemma Fault.noEscape_text {f : Fault} (h : NoEscape f.message) : NoEscape f.diagnostic.text := by
  have htext : ∀ s : String, toString s = s := fun _ => rfl
  simp only [Fault.diagnostic, Diagnostic.typing, Diagnostic.text, noEscape_append, noEscape_int,
    htext, h]
  decide

/-- Faults without escapes, if the words that they repeat have none. -/
lemma follows_noEscape (p : Policy) : Follows NoEscape (fun _ => True)
    (fun st st' => (∀ f ∈ st.faults, NoEscape f.message) → ∀ f ∈ st'.faults, NoEscape f.message)
    p where
  refl _ h := h
  trans h h' hst := h' (h hst)
  report st f _ hm hst g hg := by
    rcases Array.mem_push.1 hg with hg | rfl
    · exact hst g hg
    · exact hm.noEscape fun _ hw => hw
  set _ _ _ _ h := h
  push _ _ h := h
  pop h := h

end Typing

/-- What the check of a text says has no escape in it. -/
theorem Script.noEscape_faults {line : Nat} {text : String} {s : Stmt}
    (hs : (Script.parse line text).script = .ok s) {p : Policy} {t : Ty} {st : Typing.State}
    (hc : s.check p {} = .ok t st) : ∀ f ∈ st.faults, NoEscape f.diagnostic.text := by
  obtain ⟨hnormal, hlexemes⟩ := Parse.normal_of_script hs
  have hnames : ∀ id, .name id ∈ s.scriptLexemes → NoEscape id := by
    intro id hid
    rw [hlexemes] at hid
    obtain ⟨t, ht, hid⟩ := List.mem_map.1 hid
    exact Token.noEscape_of_scanFrom _ _ t ht id hid
  have hwords : ∀ w ∈ s.words, NoEscape w := by
    cases s with
    | block _ body =>
      exact fun w hw => (Stmt.isWord_all body hnormal (List.Subset.refl _) w hw).noEscape hnames
    | _ => exact hnormal.elim
  have hmoves := (s.moves (follows_noEscape p) hwords fun _ _ => trivial).ok hc
  exact fun f hf => Fault.noEscape_text (hmoves (fun g hg => absurd hg (by simp)) f hf)

end MatScript
