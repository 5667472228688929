import MatScript.Proofs.Checking

/-! What checking an expression does to the state: it looks up names and reports faults of
expressions, and nothing else. So whatever such reports keep, the check of every expression keeps. -/
namespace MatScript

namespace Typing

/-- Whether a fault is that of a jump outside of loops, of whatever name. -/
def Fault.isStray (f : Fault) : Bool :=
  "Instruction ".toList.isPrefixOf f.message.toList &&
    " has to be inside a loop".toList.isSuffixOf f.message.toList

/-- A message that opens with another letter is not that of a jump. -/
lemma isStray_of_head {span : Span} {message : String} {c : Char}
    (hm : message.toList.head? = some c) (hc : c ≠ 'I') : Fault.isStray ⟨span, message⟩ = false := by
  obtain ⟨cs, hcs⟩ := List.head?_eq_some_iff.mp hm
  have hfirst : "Instruction ".toList = 'I' :: "nstruction ".toList := by decide
  simp only [Fault.isStray, hcs, hfirst, List.isPrefixOf, beq_false_of_ne hc.symm, Bool.false_and]

/-! ## What faults say -/

/-- What faults say, those of jumps apart. The words of the script that they repeat are among the
given ones. -/
inductive Complaint (words : String → Prop) : String → Prop where
  | mixedItems (count : Nat) : Complaint words
      s!"All elements in vector have to have the same type, {count} different types found"
  | unequalDims {symbol : String} (hs : words symbol) (i : Nat) (a b : Int) : Complaint words
      s!"Operator {symbol} is not applicable for types with different sizes of dimensions (dimension {i}: {a} and {b})"
  | unequalRanks {symbol : String} (hs : words symbol) (m n : Nat) : Complaint words
      s!"Operator {symbol} is not applicable for types with different number of dimensions ({m} and {n})"
  | wrongPair {symbol : String} (hs : words symbol) (a b : Ty) : Complaint words
      s!"Operator {symbol} is not applicable for types {a.display} and {b.display}"
  | wrongOperands {symbol : String} (hs : words symbol) (ts : List Ty) : Complaint words
      s!"Operator {symbol} not applicable for types {Ty.displayTuple ts}"
  | noMatrix : Complaint words "Transposition can be performed only on 2d matrices"
  | unknownOperator {symbol : String} (hs : words symbol) : Complaint words
      s!"Unexpected operator {symbol}"
  | wrongArgument {function : String} (hf : words function) (i : Nat) (t : Ty) : Complaint words
      s!"Function {function} expects integers as arguments, while argument number {i} is of type {t.display}"
  | wrongCount (count : Nat) : Complaint words
      s!"Function eye expects exactly two arguments, while {count} were found"
  | undefinedName {id : String} (hid : words id) : Complaint words s!"Variable {id} is not defined"
  | noSelector : Complaint words "Selector has to be a list of integers"
  | longSelector : Complaint words "Selector has more arguments than variable has dimensions"
  | rangeStart : Complaint words "First element in range has to be a integer"
  | rangeStop : Complaint words "Second element in range has to be a integer"
  | wrongElement (value element : Ty) : Complaint words
      s!"Cannot assign value of type {value.display} to index of type {element.display}"
  | whileCondition : Complaint words "Condition in while statement has to evaluate to boolean"
  | ifCondition : Complaint words "Condition in if statement has to evaluate to boolean"

/-- None of it reads like what is said of a jump. -/
lemma Complaint.isStray {words : String → Prop} {message : String} (h : Complaint words message)
    (span : Span) : Fault.isStray ⟨span, message⟩ = false := by
  cases h with
  | mixedItems _ => exact isStray_of_head (c := 'A') (by simp [toString]) (by decide)
  | unequalDims _ _ _ _ | unequalRanks _ _ _ | wrongPair _ _ _ | wrongOperands _ _ =>
    exact isStray_of_head (c := 'O') (by simp [toString]) (by decide)
  | noMatrix => exact isStray_of_head (c := 'T') (by simp) (by decide)
  | unknownOperator _ => exact isStray_of_head (c := 'U') (by simp [toString]) (by decide)
  | wrongArgument _ _ _ | wrongCount _ =>
    exact isStray_of_head (c := 'F') (by simp [toString]) (by decide)
  | undefinedName _ => exact isStray_of_head (c := 'V') (by simp [toString]) (by decide)
  | noSelector | longSelector | rangeStop =>
    exact isStray_of_head (c := 'S') (by simp) (by decide)
  | rangeStart => exact isStray_of_head (c := 'F') (by simp) (by decide)
  | wrongElement _ _ => exact isStray_of_head (c := 'C') (by simp [toString]) (by decide)
  | whileCondition | ifCondition => exact isStray_of_head (c := 'C') (by simp) (by decide)

/-! ## Checks that report -/

/-- The checks that do nothing but report, and report no jumps. -/
inductive Reports (words : String → Prop) (p : Policy) : {α : Type} → Check α → Prop where
  | pure {α : Type} (a : α) : Reports words p (Pure.pure a : Check α)
  | throw {α : Type} (e : Stop) : Reports words p (MonadExcept.throw e : Check α)
  | report {span : Span} {message : String} (hm : Complaint words message) :
      Reports words p (report p span message)
  | bind {α β : Type} {c : Check α} {f : α → Check β} (hc : Reports words p c)
      (hf : ∀ a, Reports words p (f a)) : Reports words p (c >>= f)

namespace Reports

variable {α : Type} {words : String → Prop} {p : Policy}

lemma ite {c d : Check α} (b : Prop) [Decidable b] (hc : Reports words p c)
    (hd : Reports words p d) : Reports words p (if b then c else d) := by
  split
  · exact hc
  · exact hd

lemma reject {span : Span} {message : String} (hm : Complaint words message) :
    Reports words p (reject p span message) :=
  .bind (.report hm) fun _ => .pure _

lemma require {span : Span} {message : String} (t required : Ty) (hm : Complaint words message) :
    Reports words p (require p span t required message) :=
  .ite _ (.pure _) (.report hm)

lemma vectorType (span : Span) (ts : List Ty) : Reports words p (vectorType p span ts) := by
  unfold Typing.vectorType
  split
  · exact .pure _
  · exact .ite _ (.bind (.report (.mixedItems _)) fun _ => .pure _) (.pure _)

section

variable {symbol : String} (hs : words symbol)

include hs

lemma matchDims (span : Span) (i : Nat) (as bs : List (Option Int)) :
    Reports words p (matchDims p span symbol i as bs) := by
  induction as generalizing i bs with
  | nil => cases bs <;> exact .pure _
  | cons a as ih =>
    cases bs with
    | nil => cases a <;> exact .pure _
    | cons b bs =>
      cases a with
      | none => exact ih _ _
      | some a =>
        cases b with
        | none => exact ih _ _
        | some b =>
          exact .ite _ (.bind (.report (.unequalDims hs i a b)) fun _ => ih _ _) (ih _ _)

lemma dottedType (span : Span) (op : ScalarOperator) (a b : Ty) :
    Reports words p (dottedType p span symbol op a b) := by
  unfold Typing.dottedType
  split
  · exact .reject (.wrongPair hs a b)
  · refine .ite _ (.reject (.unequalRanks hs _ _)) ?_
    exact .bind (.matchDims hs _ _ _ _) fun _ => .pure _

lemma operatorType (span : Span) (ts : List Ty) :
    Reports words p (operatorType p span symbol ts) := by
  unfold Typing.operatorType
  split
  · split
    · exact .pure _
    · exact .reject (.wrongOperands hs ts)
  · refine .ite _ (.pure _) (.ite _ ?_ ?_)
    · split
      · exact .ite _ (.reject .noMatrix) (.pure _)
      · exact .throw _
    · split
      · split
        · exact .dottedType hs _ _ _ _
        · exact .throw _
      · exact .reject (.unknownOperator hs)

end

section

variable {function : String} (hf : words function)

include hf

lemma integerArguments (span : Span) (i : Nat) (ts : List Ty) :
    Reports words p (integerArguments p span function i ts) := by
  induction ts generalizing i with
  | nil => exact .pure _
  | cons t ts ih => exact .ite _ (.bind (.report (.wrongArgument hf i t)) fun _ => ih _) (ih _)

lemma callType (span : Span) (ts : List Ty) : Reports words p (callType p span function ts) := by
  have hrest : Reports words p (do
      Typing.integerArguments p span function 1 ts
      return (⟨some .float, List.replicate ts.length none⟩ : Ty)) :=
    .bind (.integerArguments hf _ _ _) fun _ => .pure _
  exact .ite _ (.bind (.report (.wrongCount ts.length)) fun _ => hrest) hrest

end

lemma elementType (span : Span) (array index : Ty) (count : Nat) :
    Reports words p (elementType p span array index count) :=
  .ite _ (.reject .noSelector) (.ite _ (.reject .longSelector) (.pure _))

/-- Reporting does not look at the state: what a raising check gives once, it always gives. -/
lemma eq_ok {c : Check α} (h : Reports words .raising c) {st st' : State} {a : α}
    (hc : c st = .ok a st') : st' = st ∧ ∀ other, c other = .ok a other := by
  induction h generalizing st st' with
  | pure b =>
    cases hc
    exact ⟨rfl, fun _ => rfl⟩
  | throw e => cases hc
  | report hm => cases hc
  | bind _ _ ihc ihf =>
    obtain ⟨b, st₁, h₁, h₂⟩ := bind_eq_ok.mp hc
    obtain ⟨rfl, hb⟩ := ihc h₁
    obtain ⟨rfl, ha⟩ := ihf b h₂
    exact ⟨rfl, fun other => (bind_ok (hb other) _).trans (ha other)⟩

end Reports

/-! ## What reports keep -/

/-- The checks that go from one state to a related one, however they end. -/
def Moves {α : Type} (R : State → State → Prop) (c : Check α) : Prop :=
  ∀ st, R st (stateAfter (c st))

/-- A relation between states that holds along every row of reports that repeat only the words,
those of jumps apart. -/
structure Tracks (words : String → Prop) (R : State → State → Prop) (p : Policy) : Prop where
  refl : ∀ st, R st st
  trans : ∀ {st st₁ st₂}, R st st₁ → R st₁ st₂ → R st st₂
  report : ∀ st f, p.collect = true → Complaint words f.message →
    R st { st with faults := st.faults.push f }

section

variable {α β : Type} {words : String → Prop} {R : State → State → Prop} {p : Policy}

lemma Moves.ok {c : Check α} (h : Moves R c) {st st' : State} {a : α} (hc : c st = .ok a st') :
    R st st' := by
  have := h st
  rwa [hc] at this

lemma Moves.error {c : Check α} (h : Moves R c) {st st' : State} {e : Stop}
    (hc : c st = .error e st') : R st st' := by
  have := h st
  rwa [hc] at this

namespace Tracks

variable (h : Tracks words R p)

include h

lemma pure (a : α) : Moves R (pure a) := h.refl

lemma bind {c : Check α} {f : α → Check β} (hc : Moves R c) (hf : ∀ a, Moves R (f a)) :
    Moves R (c >>= f) := by
  intro st
  cases hst : c st with
  | ok a st₁ =>
    rw [bind_ok hst]
    exact h.trans (hc.ok hst) (hf a st₁)
  | error e st₁ =>
    rw [bind_error hst]
    exact hc.error hst

lemma discard {c : Check α} (hc : Moves R c) : Moves R (discard c) := h.bind hc fun _ => h.pure _

lemma moves {c : Check α} (hc : Reports words p c) : Moves R c := by
  induction hc with
  | pure a => exact h.pure a
  | throw e => exact h.refl
  | report hm =>
    intro st
    unfold Typing.report
    split
    · next hp => exact h.report st _ hp hm
    · exact h.refl st
  | bind _ _ ihc ihf => exact h.bind ihc ihf

lemma nameType (span : Span) {id : String} (hid : words id) : Moves R (nameType p span id) := by
  intro st
  rw [nameType_apply]
  split
  · exact h.refl st
  · exact h.moves (.reject (.undefinedName hid)) st

end Tracks

end

end Typing

open Typing

mutual

/-- What reports keep, the check of an expression keeps. -/
theorem Expr.moves {words : String → Prop} {R : State → State → Prop} {p : Policy}
    (h : Tracks words R p) : (e : Expr) → (∀ w ∈ e.words, words w) → Moves R (e.check p)
  | .constant _ _, _ => by simpa only [Expr.check] using h.pure _
  | .vector _ items, he => by
    simp only [Expr.check]
    exact h.bind (Expr.moves_all h items he) fun _ => h.moves (.vectorType _ _)
  | .range _ start stop, he => by
    rw [Expr.words, List.forall_mem_append] at he
    simp only [Expr.check]
    refine h.bind (start.moves h he.1) fun _ => h.bind (h.moves (.require _ _ .rangeStart)) fun _ => ?_
    exact h.bind (stop.moves h he.2) fun _ => h.bind (h.moves (.require _ _ .rangeStop)) fun _ =>
      h.pure _
  | .operator _ _ operands, he => by
    rw [Expr.words, List.forall_mem_cons] at he
    simp only [Expr.check]
    exact h.bind (Expr.moves_all h operands he.2) fun _ => h.moves (.operatorType he.1 _ _)
  | .call _ _ arguments, he => by
    rw [Expr.words, List.forall_mem_cons] at he
    simp only [Expr.check]
    exact h.bind (Expr.moves_all h arguments he.2) fun _ => h.moves (.callType he.1 _ _)
  | .name _ _, he => by
    simpa only [Expr.check] using h.nameType _ (List.forall_mem_singleton.1 he)
  | .element _ _ _ indices _, he => by
    rw [Expr.words, List.forall_mem_cons] at he
    simp only [Expr.check]
    refine h.bind (h.nameType _ he.1) fun _ => h.bind (Expr.moves_all h indices he.2) fun _ => ?_
    exact h.bind (h.moves (.vectorType _ _)) fun _ => h.moves (.elementType _ _ _ _)
  | .gap _ _, _ => by simpa only [Expr.check] using h.moves (.throw _)

theorem Expr.moves_all {words : String → Prop} {R : State → State → Prop} {p : Policy}
    (h : Tracks words R p) : (es : List Expr) → (∀ w ∈ Expr.wordsAll es, words w) →
    Moves R (Expr.checkAll p es)
  | [], _ => by simpa only [Expr.checkAll] using h.pure _
  | e :: es, hes => by
    rw [Expr.wordsAll, List.forall_mem_append] at hes
    simp only [Expr.checkAll]
    exact h.bind (e.moves h hes.1) fun _ => h.bind (Expr.moves_all h es hes.2) fun _ => h.pure _

end

namespace Typing.Tracks

variable {words : String → Prop} {R : State → State → Prop} {p : Policy} (h : Tracks words R p)
  {target value : Expr} (ht : ∀ w ∈ target.words, words w) (hv : ∀ w ∈ value.words, words w)
  (hset : ∀ id ∈ target.assignedNames, ∀ t, Moves R (setType id t))

include h ht hv hset

/-- What assigning a type to the target keeps too, the check of an assignment keeps. -/
lemma checkAssign (span : Span) : Moves R (checkAssign p span target value) := by
  unfold Typing.checkAssign
  split
  · exact h.bind (value.moves h hv) fun _ => hset _ (by simp [Expr.assignedNames]) _
  · refine h.bind (Expr.moves h _ ht) fun _ => h.bind (value.moves h hv) fun _ => h.moves ?_
    exact .require _ _ (.wrongElement _ _)
  · exact h.pure _

lemma checkUpdate (span : Span) {symbol : String} (hs : words symbol) :
    Moves R (checkUpdate p span symbol target value) := by
  unfold Typing.checkUpdate
  refine h.bind (target.moves h ht) fun _ => h.bind (value.moves h hv) fun _ => ?_
  dsimp only
  split
  · exact h.moves (.throw _)
  · split
    · exact h.moves (.report (.wrongPair hs _ _))
    · split
      · exact hset _ (by simp [Expr.assignedNames]) _
      · exact h.moves (.require _ _ (.wrongElement _ _))
      · exact h.pure _

end Typing.Tracks

/-- A raising check does not get past a report. -/
lemma Typing.tracks_raising : Tracks (fun _ => True) (fun st st' => st' = st) .raising where
  refl _ := rfl
  trans h h' := h'.trans h
  report _ _ hp := by cases hp

/-- An accepted expression leaves the state as it is, so what follows is checked in it. -/
lemma Typing.bind_check_eq_ok {β : Type} {st st' : State} {b : β} {e : Expr} {f : Ty → Check β} :
    (e.check .raising >>= f) st = .ok b st' ↔
      ∃ t, e.check .raising st = .ok t st ∧ f t st = .ok b st' := by
  rw [bind_eq_ok]
  constructor
  · rintro ⟨t, st₁, he, hf⟩
    obtain rfl := (e.moves tracks_raising fun _ _ => trivial).ok he
    exact ⟨t, he, hf⟩
  · rintro ⟨t, he, hf⟩
    exact ⟨t, st, he, hf⟩

/-! ## Statements -/

namespace Typing

/-- The scope of a check that stops is not left. -/
lemma within_eq_error {name : String} {body : Check Unit} {st st₁ : State} {e : Stop}
    (h : body (st.push name) = .error e st₁) : within name body st = .error e st₁ := by
  have hpush : body { st with table := st.table.push name } = .error e st₁ := h
  unfold within
  rw [hpush]

/-- What faults say, with the words of the script that they repeat. -/
def Message (words : String → Prop) (message : String) : Prop :=
  Complaint words message ∨
    ∃ name, words name ∧ message = s!"Instruction {name} has to be inside a loop"

/-- A relation between states that holds along every report that repeats only the words, every
assignment of a type to one of the names and every scope that is entered, and from entering a scope
to leaving it. -/
structure Follows (words names : String → Prop) (R : State → State → Prop) (p : Policy) : Prop where
  refl : ∀ st, R st st
  trans : ∀ {st st₁ st₂}, R st st₁ → R st₁ st₂ → R st st₂
  report : ∀ st f, p.collect = true → Message words f.message →
    R st { st with faults := st.faults.push f }
  set : ∀ st id t, names id → R st (st.set id t)
  push : ∀ st name, R st (st.push name)
  pop : ∀ {st st₁ name}, R (st.push name) st₁ → R st st₁.pop

namespace Follows

variable {words names : String → Prop} {R : State → State → Prop} {p : Policy}
  (h : Follows words names R p)

include h

lemma tracks : Tracks words R p :=
  ⟨h.refl, h.trans, fun st f hp hm => h.report st f hp (.inl hm)⟩

lemma moves_setType {id : String} (hid : names id) (t : Ty) : Moves R (setType id t) :=
  fun st => h.set st id t hid

lemma within {name : String} {body : Check Unit} (hbody : Moves R body) :
    Moves R (within name body) := by
  intro st
  cases hb : body (st.push name) with
  | ok u st₁ =>
    rw [within_eq_ok (u := ()).mpr ⟨st₁, hb, rfl⟩]
    exact h.pop (hbody.ok hb)
  | error stop st₁ =>
    rw [within_eq_error hb]
    exact h.trans (h.push st name) (hbody.error hb)

lemma checkInstruction (span : Span) {name : String} (hname : words name) {arguments : List Expr}
    (hargs : ∀ w ∈ Expr.wordsAll arguments, words w) :
    Moves R (checkInstruction p span name arguments) := by
  have hrest := h.tracks.discard (Expr.moves_all h.tracks arguments hargs)
  have hstray : Moves R (Typing.report p span s!"Instruction {name} has to be inside a loop") := by
    intro st
    unfold Typing.report
    split
    · next hp => exact h.report st _ hp (.inr ⟨name, hname, rfl⟩)
    · exact h.refl st
  unfold Typing.checkInstruction
  split
  · refine h.tracks.bind h.refl fun table => ?_
    dsimp only
    split
    · exact h.tracks.bind hstray fun _ => hrest
    · exact hrest
  · exact hrest

/-- A condition, and what is checked after it. -/
lemma condition {condition : Expr} (hc : ∀ w ∈ condition.words, words w) {span : Span}
    {message : String} (hm : Complaint words message) {rest : Check Ty} (hrest : Moves R rest) :
    Moves R (do require p span (← condition.check p) .bool message; rest) :=
  h.tracks.bind (condition.moves h.tracks hc) fun _ =>
    h.tracks.bind (h.tracks.moves (.require _ _ hm)) fun _ => hrest

/-- A body in a scope of its own, and what is checked after it. -/
lemma body {s : Stmt} {name : String} {rest : Check Ty} (hs : Moves R (s.check p))
    (hrest : Moves R rest) : Moves R (do Typing.within name (discard (s.check p)); rest) :=
  h.tracks.bind (h.within (h.tracks.discard hs)) fun _ => hrest

end Follows

end Typing

mutual

/-- What reports with its words, assignments to its names and scopes keep, the check of a statement
keeps. -/
theorem Stmt.moves {words names : String → Prop} {R : State → State → Prop} {p : Policy}
    (h : Follows words names R p) : (s : Stmt) → (∀ w ∈ s.words, words w) →
    (∀ x ∈ s.assignedNames, names x) → Moves R (s.check p)
  | .block _ body, hw, hs => by
    simp only [Stmt.check]
    exact h.tracks.bind (h.within (Stmt.moves_all h body hw hs)) fun _ => h.tracks.pure _
  | .assign _ target value, hw, hs => by
    rw [Stmt.words, List.forall_mem_append] at hw
    simp only [Stmt.check]
    refine h.tracks.bind (h.tracks.checkAssign hw.1 hw.2 (fun id hid => ?_) _) fun _ =>
      h.tracks.pure _
    exact h.moves_setType (hs id hid)
  | .update _ _ target value, hw, hs => by
    rw [Stmt.words, List.forall_mem_cons, List.forall_mem_append] at hw
    simp only [Stmt.check]
    refine h.tracks.bind (h.tracks.checkUpdate hw.2.1 hw.2.2 (fun id hid => ?_) _ hw.1) fun _ =>
      h.tracks.pure _
    exact h.moves_setType (hs id hid)
  | .instruction _ _ _, hw, _ => by
    rw [Stmt.words, List.forall_mem_cons] at hw
    simp only [Stmt.check]
    exact h.tracks.bind (h.checkInstruction _ hw.1 hw.2) fun _ => h.tracks.pure _
  | .whileLoop _ _ body, hw, hs => by
    rw [Stmt.words, List.forall_mem_append] at hw
    simp only [Stmt.check]
    exact h.condition hw.1 .whileCondition (h.body (body.moves h hw.2 hs) (h.tracks.pure _))
  | .forLoop _ _ _ range body, hw, hs => by
    rw [Stmt.words, List.forall_mem_append] at hw
    rw [Stmt.assignedNames, List.forall_mem_cons] at hs
    simp only [Stmt.check]
    refine h.tracks.bind (range.moves h.tracks hw.1) fun _ => ?_
    refine h.tracks.bind (h.moves_setType hs.1 _) fun _ => ?_
    exact h.body (body.moves h hw.2 hs.2) (h.tracks.pure _)
  | .ifThen _ _ yes, hw, hs => by
    rw [Stmt.words, List.forall_mem_append] at hw
    simp only [Stmt.check]
    exact h.condition hw.1 .ifCondition (h.body (yes.moves h hw.2 hs) (h.tracks.pure _))
  | .ifElse _ _ yes no, hw, hs => by
    rw [Stmt.words, List.forall_mem_append, List.forall_mem_append] at hw
    rw [Stmt.assignedNames, List.forall_mem_append] at hs
    simp only [Stmt.check]
    refine h.condition hw.1 .ifCondition (h.body (yes.moves h hw.2.1 hs.1) ?_)
    exact h.body (no.moves h hw.2.2 hs.2) (h.tracks.pure _)
  | .expr e, hw, _ => by simpa only [Stmt.check] using e.moves h.tracks hw

theorem Stmt.moves_all {words names : String → Prop} {R : State → State → Prop} {p : Policy}
    (h : Follows words names R p) : (ss : List Stmt) → (∀ w ∈ Stmt.wordsAll ss, words w) →
    (∀ x ∈ Stmt.assignedNamesAll ss, names x) → Moves R (Stmt.checkAll p ss)
  | [], _, _ => by simpa only [Stmt.checkAll] using h.tracks.pure _
  | s :: ss, hw, hs => by
    rw [Stmt.wordsAll, List.forall_mem_append] at hw
    rw [Stmt.assignedNamesAll, List.forall_mem_append] at hs
    simp only [Stmt.checkAll]
    refine h.tracks.bind (h.tracks.discard (s.moves h hw.1 hs.1)) fun _ => ?_
    exact Stmt.moves_all h ss hw.2 hs.2

end

end MatScript
