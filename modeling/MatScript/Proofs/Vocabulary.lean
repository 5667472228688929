import MatScript.Proofs.KnownOperators
import MatScript.Proofs.PlainMessages
import MatScript.Proofs.StrayJumps
import MatScript.Script.Outline

/-! All that the grammar can build, the later stages know: a script has an outline, the check knows
its operators, and a run knows what its operators, functions and instructions stand for. -/
namespace MatScript

/-! ## Outlines without gaps -/

namespace Outline

mutual

/-- No node is a gap. -/
def Whole : Outline → Prop
  | node _ children => WholeAll children
  | gap _ => False

def WholeAll : List Outline → Prop
  | [] => True
  | o :: os => o.Whole ∧ WholeAll os

end

lemma Whole.exists_label {o : Outline} (h : o.Whole) : ∃ l, o.label = .ok l := by
  cases o with
  | node l children => exact ⟨l, rfl⟩
  | gap what => exact h.elim

mutual

lemma exists_lines : ∀ o : Outline, o.Whole → ∀ margin, ∃ ls, o.lines margin = .ok ls
  | node _ children, h, margin => exists_linesAll children h margin
  | gap _, h, _ => h.elim

lemma exists_linesAll : ∀ os : List Outline, WholeAll os → ∀ margin,
    ∃ ls, linesAll margin os = .ok ls
  | [], _, _ => ⟨[], rfl⟩
  | o :: os, h, margin => by
    obtain ⟨label, hlabel⟩ := h.1.exists_label
    obtain ⟨rest, hrest⟩ := exists_linesAll os h.2 margin
    unfold linesAll
    split
    next mark inner _ =>
    obtain ⟨below, hbelow⟩ := exists_lines o h.1 (margin ++ inner)
    simp only [hlabel, hbelow, hrest]
    exact ⟨_, rfl⟩

end

lemma Whole.exists_render {o : Outline} (h : o.Whole) : ∃ shown, o.render = .ok shown := by
  obtain ⟨label, hlabel⟩ := h.exists_label
  obtain ⟨ls, hls⟩ := o.exists_lines h ""
  unfold render
  rw [hlabel, hls]
  exact ⟨_, rfl⟩

end Outline

variable (style : SpanStyle)

mutual

lemma Expr.whole_outline : ∀ e : Expr, e.Normal → (e.outline style).Whole
  | .constant _ _, _ => trivial
  | .vector _ items, h => Expr.whole_outlineAll items h.2
  | .operator _ _ operands, h => Expr.whole_outlineAll operands h.2
  | .call _ _ arguments, h => Expr.whole_outlineAll arguments h.2.2
  | .name _ _, _ => trivial
  | .element _ _ _ indices _, h => ⟨Expr.whole_outlineAll indices h.2, trivial⟩
  | .range _ _ _, h | .gap _ _, h => h.elim

lemma Expr.whole_outlineAll : ∀ es : List Expr, Expr.NormalAll es →
    Outline.WholeAll (Expr.outlineAll style es)
  | [], _ => trivial
  | e :: es, h => ⟨e.whole_outline h.1, Expr.whole_outlineAll es h.2⟩

end

lemma Expr.NormalRange.whole_outline {e : Expr} (h : e.NormalRange) : (e.outline style).Whole := by
  cases e with
  | range _ start stop =>
    exact ⟨start.whole_outline style h.1, stop.whole_outline style h.2, trivial⟩
  | _ => exact h.elim

mutual

/-- What can be written has no gap in its outline. -/
lemma Stmt.whole_outline : ∀ s : Stmt, s.Normal → (s.outline style).Whole
  | .block _ body, h => Stmt.whole_outlineAll body h
  | .assign _ target value, h =>
    ⟨target.whole_outline style h.2.1, value.whole_outline style h.2.2, trivial⟩
  | .update _ _ target value, h =>
    ⟨target.whole_outline style h.2.2.1, value.whole_outline style h.2.2.2, trivial⟩
  | .instruction _ _ arguments, h => Expr.whole_outlineAll style arguments h.2
  | .whileLoop _ condition body, h =>
    ⟨condition.whole_outline style h.1, body.whole_outline h.2, trivial⟩
  | .forLoop _ _ _ _ body, h => ⟨trivial, h.1.whole_outline style, body.whole_outline h.2, trivial⟩
  | .ifThen _ condition yes, h =>
    ⟨condition.whole_outline style h.1, ⟨yes.whole_outline h.2, trivial⟩, trivial⟩
  | .ifElse _ condition yes no, h =>
    ⟨condition.whole_outline style h.1, ⟨yes.whole_outline h.2.1, trivial⟩,
      ⟨no.whole_outline h.2.2.2, trivial⟩, trivial⟩
  | .expr _, h => h.elim

lemma Stmt.whole_outlineAll : ∀ ss : List Stmt, Stmt.NormalAll ss →
    Outline.WholeAll (Stmt.outlineAll style ss)
  | [], _ => trivial
  | s :: ss, h => ⟨s.whole_outline h.1, Stmt.whole_outlineAll ss h.2⟩

end

/-! ## Constants that can be shown -/

mutual

def Expr.constants : Expr → List Constant
  | .constant _ value => [value]
  | .vector _ items => Expr.constantsAll items
  | .range _ start stop => start.constants ++ stop.constants
  | .operator _ _ operands => Expr.constantsAll operands
  | .call _ _ arguments => Expr.constantsAll arguments
  | .name _ _ | .gap _ _ => []
  | .element _ _ _ indices _ => Expr.constantsAll indices

def Expr.constantsAll : List Expr → List Constant
  | [] => []
  | e :: es => e.constants ++ Expr.constantsAll es

end

mutual

/-- The constants in a statement. -/
def Stmt.constants : Stmt → List Constant
  | .block _ body => Stmt.constantsAll body
  | .assign _ target value | .update _ _ target value => target.constants ++ value.constants
  | .instruction _ _ arguments => Expr.constantsAll arguments
  | .whileLoop _ condition body | .ifThen _ condition body => condition.constants ++ body.constants
  | .forLoop _ _ _ range body => range.constants ++ body.constants
  | .ifElse _ condition yes no => condition.constants ++ (yes.constants ++ no.constants)
  | .expr e => e.constants

def Stmt.constantsAll : List Stmt → List Constant
  | [] => []
  | s :: ss => s.constants ++ Stmt.constantsAll ss

end

/-- A constant that is written with these lexemes. -/
def Constant.WrittenIn (ls : List Lexeme) (c : Constant) : Prop := c.Normal ∧ c.lexemes ⊆ ls

section

variable {ls : List Lexeme}

mutual

lemma Expr.writtenIn : ∀ e : Expr, e.Normal → e.lexemes ⊆ ls → ∀ c ∈ e.constants, c.WrittenIn ls
  | .constant _ value, h, hls => List.forall_mem_singleton.2 ⟨h, hls⟩
  | .vector _ items, h, hls => by
    simp only [Expr.lexemes, List.append_subset, List.cons_subset] at hls
    exact Expr.writtenIn_all items h.2 (Lexeme.subset_of_separated hls.1.2)
  | .operator _ _ operands, h, hls =>
    Expr.writtenIn_all operands h.2 (Lexeme.subset_of_ofOperator h.1 hls)
  | .call _ _ arguments, h, hls => by
    simp only [Expr.lexemes, List.append_subset, List.cons_subset] at hls
    exact Expr.writtenIn_all arguments h.2.2 (Lexeme.subset_of_separated hls.1.2.2)
  | .name _ _, _, _ => nofun
  | .element _ _ _ indices _, h, hls => by
    simp only [Expr.lexemes, List.append_subset, List.cons_subset] at hls
    exact Expr.writtenIn_all indices h.2 (Lexeme.subset_of_separated hls.1.2.2)
  | .range _ _ _, h, _ | .gap _ _, h, _ => h.elim

lemma Expr.writtenIn_all : ∀ es : List Expr, Expr.NormalAll es →
    (∀ l ∈ Expr.lexemesAll es, l ⊆ ls) → ∀ c ∈ Expr.constantsAll es, c.WrittenIn ls
  | [], _, _ => nofun
  | e :: es, h, hls => by
    rw [Expr.lexemesAll, List.forall_mem_cons] at hls
    rw [Expr.constantsAll, List.forall_mem_append]
    exact ⟨e.writtenIn h.1 hls.1, Expr.writtenIn_all es h.2 hls.2⟩

end

lemma Expr.NormalRange.writtenIn {range : Expr} (h : range.NormalRange) (hls : range.lexemes ⊆ ls) :
    ∀ c ∈ range.constants, c.WrittenIn ls := by
  cases range with
  | range _ start stop =>
    simp only [Expr.lexemes, List.append_subset, List.cons_subset] at hls
    rw [Expr.constants, List.forall_mem_append]
    exact ⟨start.writtenIn h.1 hls.1, stop.writtenIn h.2 hls.2.2⟩
  | _ => exact h.elim

mutual

/-- The constants of a written statement stand in it. -/
lemma Stmt.writtenIn : ∀ s : Stmt, s.Normal → s.lexemes ⊆ ls → ∀ c ∈ s.constants, c.WrittenIn ls
  | .block _ body, h, hls => by
    simp only [Stmt.lexemes, List.append_subset, List.cons_subset] at hls
    exact Stmt.writtenIn_all body h hls.1.2
  | .assign _ target value, h, hls => by
    simp only [Stmt.lexemes, List.append_subset, List.cons_subset] at hls
    rw [Stmt.constants, List.forall_mem_append]
    exact ⟨target.writtenIn h.2.1 hls.1.1, value.writtenIn h.2.2 hls.1.2.2⟩
  | .update _ _ target value, h, hls => by
    simp only [Stmt.lexemes, List.append_subset] at hls
    rw [Stmt.constants, List.forall_mem_append]
    exact ⟨target.writtenIn h.2.2.1 hls.1.1.1, value.writtenIn h.2.2.2 hls.1.2⟩
  | .instruction _ _ arguments, h, hls => by
    simp only [Stmt.lexemes, List.append_subset] at hls
    exact Expr.writtenIn_all arguments h.2 (Lexeme.subset_of_separated hls.1.2)
  | .whileLoop _ condition body, h, hls | .ifThen _ condition body, h, hls => by
    simp only [Stmt.lexemes, List.append_subset, List.cons_subset] at hls
    rw [Stmt.constants, List.forall_mem_append]
    exact ⟨condition.writtenIn h.1 hls.1.2.2, body.writtenIn h.2 hls.2.2⟩
  | .forLoop _ _ _ range body, h, hls => by
    simp only [Stmt.lexemes, List.append_subset, List.cons_subset] at hls
    rw [Stmt.constants, List.forall_mem_append]
    exact ⟨h.1.writtenIn hls.1.2.2.2, body.writtenIn h.2 hls.2⟩
  | .ifElse _ condition yes no, h, hls => by
    simp only [Stmt.lexemes, List.append_subset, List.cons_subset] at hls
    obtain ⟨hc, hyes, -, hno⟩ := h
    rw [Stmt.constants, List.forall_mem_append, List.forall_mem_append]
    exact ⟨condition.writtenIn hc hls.1.1.2.2, yes.writtenIn hyes hls.1.2.2,
      no.writtenIn hno hls.2.2⟩
  | .expr _, h, _ => h.elim

lemma Stmt.writtenIn_all : ∀ ss : List Stmt, Stmt.NormalAll ss → Stmt.lexemesAll ss ⊆ ls →
    ∀ c ∈ Stmt.constantsAll ss, c.WrittenIn ls
  | [], _, _ => nofun
  | s :: ss, h, hls => by
    rw [Stmt.lexemesAll, List.append_subset] at hls
    rw [Stmt.constantsAll, List.forall_mem_append]
    exact ⟨s.writtenIn h.1 hls.1, Stmt.writtenIn_all ss h.2 hls.2⟩

end

end

namespace Text

variable {c : Char} {cs : List Char}

lemma digitValue?_lt {d : Nat} (h : digitValue? c = some d) : d < 10 := by
  obtain ⟨z, hz, rfl⟩ := Option.map_eq_some_iff.1 h
  have hrange := List.find?_some hz
  simp only [Bool.and_eq_true, decide_eq_true_eq] at hrange
  omega

lemma number_lt (cs : List Char) : number cs < 10 ^ cs.length := by
  have hdigits : ∀ d ∈ (cs.map fun c => (digitValue? c).getD 0).reverse, d < 10 := by
    intro d hd
    obtain ⟨c, -, rfl⟩ := List.mem_map.1 (List.mem_reverse.1 hd)
    cases hc : digitValue? c with
    | none => exact Nat.zero_lt_succ 9
    | some d => exact digitValue?_lt hc
  simpa [number] using Nat.ofDigits_lt_base_pow_length (by decide : 1 < 10) hdigits

lemma number_lt_pow {k : Nat} (h : cs.length ≤ k) : number cs < Nat.pow 10 k :=
  Nat.lt_of_lt_of_le (number_lt cs) (Nat.pow_le_pow_right (by decide) h)

end Text

namespace Token

variable {c : Char} {rest : List Char} {n k : Nat}

lemma ofWord_ne_int (cs : List Char) (n : Nat) : Lexeme.ofWord cs ≠ .int n := by
  simp only [Lexeme.ofWord]
  split <;> simp

/-- An integer in a text has few enough digits to be written again. -/
lemma lt_digitLimit_of_piece (h : piece c rest = (.lexeme (.int n), k)) : n < Value.digitLimit := by
  simp only [piece] at h
  split at h
  · cases h
  split at h
  · exact absurd (Piece.lexeme.inj (Prod.mk.inj h).1) (ofWord_ne_int _ _)
  split at h
  · cases h
  split at h
  · cases h
  split at h
  · split at h <;> cases h
  simp only [numberPiece, symbolPiece] at h
  split at h
  · cases h
  split at h
  · split at h
    · cases h
    · next hmax =>
      cases h
      rw [Text.digitsValue_eq_number]
      unfold Value.digitLimit
      exact Text.number_lt_pow (Nat.le_of_not_lt hmax)
  · split at h
    · cases h
    · split at h <;> cases h

end Token

/-- A constant that stands in a text is shown as it is. -/
lemma display_ofConstant {p : Token.Place} {cs : List Char} {c : Constant}
    (h : c.WrittenIn ((Token.scanFrom p cs).tokens.map (·.lexeme))) (store : Store) :
    (Value.ofConstant c).display store = .ok c.display := by
  obtain ⟨hnormal, hls⟩ := h
  cases c with
  | none => exact hnormal.elim
  | int n =>
    obtain ⟨t, ht, hlexeme⟩ := List.mem_map.1 (hls List.mem_cons_self)
    have hlt : n.toNat < Value.digitLimit := by
      refine Token.lexeme_of_scanFrom (P := fun l => ∀ m, l = .int m → m < Value.digitLimit) ?_
        p cs t ht _ hlexeme
      rintro c rest _ k hpiece m rfl
      exact Token.lt_digitLimit_of_piece hpiece
    have hwritten : ¬Value.digitLimit ≤ n.natAbs := by
      rw [← Int.toNat_of_nonneg hnormal, Int.natAbs_natCast]
      exact Nat.not_le.2 hlt
    rw [Value.ofConstant, Value.display, Value.intText, if_neg hwritten]
    rfl
  | bool _ | float _ | text _ => rfl

/-! ## All stages -/

open Typing

/-- Every stage knows all of a script. Its outline can be drawn, and its constants can be shown. A
collecting check, on whatever table, comes to its end and calls no operator unexpected. And a run,
on whatever machine, fails neither for a gap nor for a name that no operation has. -/
theorem Script.stages_cover {line : Nat} {text : String} {s : Stmt}
    (hp : (Script.parse line text).script = .ok s) :
    (∀ style, ∃ shown, (s.outline style).render = .ok shown) ∧
    (∀ c ∈ s.constants, ∀ store, (Value.ofConstant c).display store = .ok c.display) ∧
    (∀ pick table faults, ∃ t st, s.check (.collectingBy pick) ⟨table, faults⟩ = .ok t st ∧
      ∀ f ∈ st.faults, f ∈ faults ∨ ¬"Unexpected operator".toList <+: f.message.toList) ∧
    ∀ fuel m e m', s.exec fuel m = .error (.failed e) m' →
      e.errorClass ≠ .unsupported ∧ e.errorClass ≠ .key := by
  obtain ⟨hscript, hlexemes⟩ := Parse.normal_of_script hp
  have hn := hscript.normal
  refine ⟨fun style => (s.whole_outline style hn).exists_render, ?_, ?_, ?_⟩
  · intro c hc store
    cases s with
    | block _ body =>
      have hwritten := Stmt.writtenIn_all body hscript (List.Subset.refl _) c hc
      rw [show Stmt.lexemesAll body = _ from hlexemes] at hwritten
      exact display_ofConstant hwritten store
    | _ => exact hscript.elim
  · intro pick table faults
    obtain ⟨t, table', new, -, hc, -⟩ := s.mirrors pick pick hn table faults
    exact ⟨t, _, hc, (s.familiar _ hn).ok hc⟩
  · intro fuel m e m' hx
    have hstops := s.stops fuel hn m
    rw [hx] at hstops
    exact RunError.ofValues_iff.1 hstops

/-- A name that is not defined, and a quotient that has no value. -/
def dividingText : String := "x = -1; x += 2; while (x > 0) print y, x / 0;"

def dividingScript : Stmt :=
  let at1 : Span := ⟨1, 1⟩
  let int (n : Int) : Expr := .constant at1 (.int n)
  .block at1 [
    .assign at1 (.name at1 "x") (.operator at1 "u-" [int 1]),
    .update at1 "+=" (.name at1 "x") (int 2),
    .whileLoop at1 (.operator at1 ">" [.name at1 "x", int 0])
      (.instruction at1 "print" [.name at1 "y", .operator at1 "/" [.name at1 "x", int 0]])]

theorem stages_cover_dividingText :
    (Script.parse 1 dividingText).script = .ok dividingScript ∧
    (∃ shown, (dividingScript.outline .plain).render = .ok shown) ∧
    (.int 2 ∈ dividingScript.constants ∧ (Value.ofConstant (.int 2)).display #[] = .ok "2") ∧
    (∃ t st, dividingScript.check .collecting {} = .ok t st ∧ st.faults.size = 1 ∧
      ∀ f ∈ st.faults, f ∈ #[] ∨ ¬"Unexpected operator".toList <+: f.message.toList) ∧
    ∃ m, dividingScript.exec 1 {} = .error (.failed .divisionByZero) m ∧
      RunError.divisionByZero.errorClass ≠ .unsupported ∧
      RunError.divisionByZero.errorClass ≠ .key := by
  have hp : (Script.parse 1 dividingText).script = .ok dividingScript := by cbv
  have hconstant : .int 2 ∈ dividingScript.constants := by
    simp [dividingScript, Stmt.constants, Stmt.constantsAll, Expr.constants, Expr.constantsAll]
  have hc : dividingScript.check .collecting {} = .ok .none ⟨.empty,
      #[⟨⟨1, 1⟩, "Variable y is not defined"⟩]⟩ := by cbv
  have hx : dividingScript.exec 1 {} =
      .error (.failed .divisionByZero) (stateAfter (dividingScript.exec 1 {})) := by cbv
  obtain ⟨houtline, hshown, hcheck, hrun⟩ := Script.stages_cover hp
  obtain ⟨t, st, hst, hfaults⟩ := hcheck (fun _ => 0) .empty #[]
  cases hc.symm.trans hst
  exact ⟨hp, houtline .plain, ⟨hconstant, hshown _ hconstant #[]⟩, ⟨_, _, hc, rfl, hfaults⟩, _, hx,
    hrun 1 {} _ _ hx⟩

end MatScript
