import MatScript.Proofs.ParseComplete
import MatScript.Proofs.Spelling
import MatScript.Session

/-! Where a text is refused. From every state that the parser can be in, some tokens lead to a
whole script, so the parser refuses a token only where no script could have it, and a fault of
scanning is reported only if the tokens before it start a script. -/
namespace MatScript
namespace Parse

/-- The tokens are a whole script. -/
def Accepted (ts : List Token) : Prop :=
  ∃ line s, (ofScan ⟨ts, .finished, line⟩).script = .ok s

/-- Some script starts with the tokens. -/
def Viable (ts : List Token) : Prop := ∃ more, Accepted (ts ++ more)

/-! ## Completing a state -/

/-- Nothing is open: what has been read is a whole script. -/
def State.Complete (st : State) : Prop := st.settle.mode = .statement ∧ st.settle.stack = []

/-- Some tokens lead from the state to a whole script. -/
def Completes (st : State) : Prop := ∃ ts st', st.feedAll ts = .ok st' ∧ st'.Complete

/-- A token that says `l`. Completing a state does not depend on where its tokens stand. -/
def tokenOf (l : Lexeme) : Token := ⟨l, 0, 0, 0⟩

namespace Completes

variable {st st' : State} {stack rest : List Frame}

lemma of_feed {l : Lexeme} (h : st.feed (tokenOf l) = some st') (h' : Completes st') :
    Completes st := by
  obtain ⟨ts, after, hread, hdone⟩ := h'
  refine ⟨tokenOf l :: ts, after, ?_, hdone⟩
  rw [State.feedAll, h]
  exact hread

/-- A state where `else` may follow can be completed without one. -/
lemma of_settle (hm : st.settle.mode = .statement) (h : Completes st.settle) : Completes st := by
  obtain ⟨ts, after, hread, hdone⟩ := h
  cases ts with
  | nil =>
    cases hread
    rw [State.Complete, settle_of_statement hm] at hdone
    exact ⟨[], st, rfl, hdone⟩
  | cons t ts =>
    have helse : t.lexeme ≠ .keyword .else := by
      intro ht
      have hnone : st.settle.feed t = none := by
        rw [State.feed, hm]
        simp only [State.feedStatement, ht]
      rw [State.feedAll, hnone] at hread
      cases hread
    refine ⟨t :: ts, after, ?_, hdone⟩
    rw [State.feedAll, feed_settle st helse]
    exact hread

lemma of_finish {s : Stmt} {span : Span} (h : Completes (st.finish true s span stack)) :
    Completes (st.finish false s span stack) := by
  rw [← settle_finish_false] at h
  refine of_settle ?_ h
  rw [settle_finish_false]
  exact State.mode_finish_true st s span stack

/-- Open loops, branches and blocks can be closed after a statement in them. -/
lemma finish (hn : Nested .statement stack) (st : State) (s : Stmt) (span : Span) :
    Completes (st.finish true s span stack) := by
  induction stack generalizing st s span with
  | nil => exact ⟨[], _, rfl, rfl, rfl⟩
  | cons frame rest ih =>
    cases frame with
    | whileBody _ _ | forBody _ _ _ | elseBranch _ _ _ | thenBranch _ _ => exact ih hn.2.2.2 _ _ _
    | block _ _ _ =>
      exact of_feed (l := .symbol .curlyRight) rfl (of_finish (ih hn.2.2.2 _ _ _))
    | _ => cases hn.1

/-- Where a statement may start, an empty block may stand. -/
lemma statement (hm : st.mode = .statement)
    (h : ∀ st' s span, Completes (State.finish st' true s span st.stack)) : Completes st := by
  refine of_feed (l := .symbol .curlyLeft) (by rw [State.feed, hm]; rfl) ?_
  exact of_feed (l := .symbol .curlyRight) rfl (of_finish (h _ _ _))

end Completes

/-- Some token can follow an expression that the innermost construct waits for. -/
def Closable (stack : List Frame) : Prop :=
  ∀ (st : State) (e : Expr), ∃ l st', EndsExpr l ∧
    st.feedEnd (closeOperators 0 stack e).2 (closeOperators 0 stack e).1 (tokenOf l) = some st' ∧
    Completes st'

lemma endsExpr_symbol {s : Symbol} (h : s ≠ .squareLeft ∧ s ≠ .apostrophe ∧ s.level? = none) :
    EndsExpr (.symbol s) := by
  rintro s ⟨⟩
  exact h

namespace Closable

variable {st : State} {rest : List Frame} {e : Expr}

/-- After an operand the expression can end. -/
lemma completes (h : Closable st.stack) (hm : st.mode.Holds e) : Completes st := by
  obtain ⟨l, st', hl, hend, hst'⟩ := h st e
  refine .of_feed (l := l) ?_ hst'
  rw [feed_of_holds hm fun hsq => (hl _ hsq).1 rfl, State.feedOperator_end fun s hs => (hl s hs).2]
  exact hend

/-- An operand can be a number, after which the expression can end. -/
lemma completes_operand (h : Closable st.stack) (hm : st.mode = .operand) : Completes st := by
  refine .of_feed (l := .int 1) (by rw [State.feed, hm]; rfl) ?_
  exact completes h (.inl rfl)

lemma assign (target : Expr) (symbol : Symbol) (hn : Nested .statement rest) :
    Closable (.assign target symbol :: rest) :=
  fun _ _ => ⟨.symbol .semicolon, _, endsExpr_symbol (by decide), rfl, .of_finish (.finish hn _ _ _)⟩

/-- After the left side of an assignment, the assignment can be completed. -/
lemma completes_target (hn : Nested .statement st.stack)
    (hfeed : ∀ t : Token, t.lexeme = .symbol .assign → st.feed t = st.feedTarget e t) :
    Completes st :=
  .of_feed (l := .symbol .assign) (hfeed _ rfl) (completes_operand (assign e .assign hn) rfl)

lemma rangeStop (line : Nat) (id : String) (start : Expr) (hn : Nested .statement rest) :
    Closable (.rangeStop line id start :: rest) := by
  intro st e
  refine ⟨.symbol .curlyLeft, _, endsExpr_symbol (by decide), rfl, ?_⟩
  exact .of_feed (l := .symbol .curlyRight) rfl (.of_finish (.finish hn _ _ _))

/-- Every construct that waits for an expression can be closed once it has one. -/
lemma of_nested {stack : List Frame} (hn : Nested .operand stack) : Closable stack := by
  induction stack with
  | nil => cases hn
  | cons frame rest ih =>
    have hrest := hn.2.2.2
    intro st e
    cases frame with
    | negate line => exact ih hrest st _
    | binary symbol left =>
      rw [closeOperators, if_pos (Nat.zero_le _)]
      exact ih hrest st _
    | vector line items =>
      exact ⟨.symbol .squareRight, _, endsExpr_symbol (by decide), rfl,
        completes (ih hrest) (.inl rfl)⟩
    | element id idLine line isTarget items =>
      refine ⟨.symbol .squareRight, _, endsExpr_symbol (by decide), rfl, ?_⟩
      cases isTarget with
      | true => exact completes_target hrest fun _ _ => rfl
      | false => exact completes (ih hrest) (.inl rfl)
    | call function line items =>
      exact ⟨.symbol .roundRight, _, endsExpr_symbol (by decide), rfl,
        completes (ih hrest) (.inl rfl)⟩
    | assign target symbol => exact assign target symbol hrest st e
    | print _ _ | result _ =>
      exact ⟨.symbol .semicolon, _, endsExpr_symbol (by decide), rfl,
        .of_finish (.finish hrest _ _ _)⟩
    | whileCondition line | ifCondition line =>
      exact ⟨.symbol .roundRight, _, endsExpr_symbol (by decide), rfl,
        .statement rfl fun st' _ _ => .finish hrest st' _ _⟩
    | rangeStart line id =>
      exact ⟨.symbol .colon, _, endsExpr_symbol (by decide), rfl,
        completes_operand (rangeStop line id _ hrest) rfl⟩
    | rangeStop line id start => exact rangeStop line id start hrest st e
    | _ => cases hn.1

end Closable

/-- From every state that the parser can be in, some tokens lead to a whole script. -/
theorem State.Valid.completes {st : State} (hv : st.Valid) : Completes st := by
  have hfits := hv.mode
  cases hm : st.mode with rw [hm] at hfits
  | statement => exact .statement hm (.finish hfits)
  | operand => exact Closable.completes_operand (.of_nested hfits) hm
  | operator e => exact Closable.completes (.of_nested hfits.1) (.inl hm)
  | word id line isTarget =>
    cases isTarget with
    | true =>
      refine Closable.completes_target (e := .name ⟨line, line⟩ id) hfits fun t ht => ?_
      simp only [State.feed, hm, ht, if_true]
    | false => exact Closable.completes (.of_nested hfits) (.inr ⟨id, line, hm, rfl⟩)
  | target e => exact Closable.completes_target (e := e) hfits.1 fun t _ => by simp only [State.feed, hm]
  | opening frame =>
    refine .of_feed (l := .symbol .roundLeft) (by rw [State.feed, hm]; rfl) ?_
    exact Closable.completes_operand (.of_nested hfits.1) rfl
  | loopName line =>
    refine .of_feed (l := .name "i") (by rw [State.feed, hm]; rfl) ?_
    refine .of_feed (l := .symbol .assign) rfl ?_
    exact Closable.completes_operand (.of_nested (nested_cons hfits trivial rfl)) rfl
  | loopAssign line id =>
    refine .of_feed (l := .symbol .assign) (by rw [State.feed, hm]; rfl) ?_
    exact Closable.completes_operand (.of_nested (nested_cons hfits trivial rfl)) rfl
  | jump line keyword =>
    refine .of_feed (l := .symbol .semicolon) (by rw [State.feed, hm]; rfl) ?_
    exact .of_finish (.finish hfits.1 _ _ _)
  | choice yes span =>
    have hsettle : st.settle = st.finish true yes span st.stack := by rw [State.settle, hm]
    refine .of_settle ?_ ?_
    · rw [hsettle]
      exact State.mode_finish_true st yes span st.stack
    · rw [hsettle]
      exact .finish hfits.1 st yes span

/-! ## Accepted and refused tokens -/

lemma isSome_script?_iff (st : State) (line : Nat) :
    (st.script? line).isSome = true ↔ st.Complete := by
  rw [State.script?_eq, State.Complete]
  split
  · next hm hstack => simp [hm, hstack]
  · next hnot => simpa using hnot

variable {ts us : List Token} {t : Token}

lemma accepted_iff : Accepted ts ↔ ∃ st, ({} : State).feedAll ts = .ok st ∧ st.Complete := by
  constructor
  · rintro ⟨line, s, h⟩
    simp only [ofScan] at h
    cases hread : ({} : State).feedAll ts with
    | error t => simp [hread] at h
    | ok st =>
      refine ⟨st, rfl, (isSome_script?_iff st line).1 ?_⟩
      cases hs : st.script? line with
      | none => simp [hread, hs] at h
      | some s => rfl
  · rintro ⟨st, hread, hst⟩
    obtain ⟨s, hs⟩ := Option.isSome_iff_exists.1 ((isSome_script?_iff st 0).2 hst)
    exact ⟨0, s, by simp only [ofScan, hread, hs]⟩

lemma feedAll_append_error {st : State} (h : st.feedAll ts = .error t) :
    st.feedAll (ts ++ us) = .error t := by
  induction ts generalizing st with
  | nil => cases h
  | cons u ts ih =>
    rw [State.feedAll] at h
    rw [List.cons_append, State.feedAll]
    split at h
    · exact h
    · next st' hfeed => exact ih h

/-- The tokens that start a script are those that the parser takes. -/
lemma viable_iff : Viable ts ↔ ∃ st, ({} : State).feedAll ts = .ok st := by
  constructor
  · rintro ⟨more, hmore⟩
    obtain ⟨st, hread, -⟩ := accepted_iff.1 hmore
    cases hts : ({} : State).feedAll ts with
    | error t =>
      rw [feedAll_append_error hts] at hread
      cases hread
    | ok st' => exact ⟨st', rfl⟩
  · rintro ⟨st, hread⟩
    have hinit : ({} : State).Valid := ⟨trivial, rfl⟩
    obtain ⟨more, st', hmore, hdone⟩ := (hinit.feedAll hread).1.completes
    exact ⟨more, accepted_iff.2 ⟨st', (feedAll_append hread).trans hmore, hdone⟩⟩

/-- The token that is refused is the first that cannot be taken. -/
lemma feedAll_eq_error_iff {st : State} : st.feedAll ts = .error t ↔
    ∃ k, ts[k]? = some t ∧ (∃ st', st.feedAll (ts.take k) = .ok st') ∧
      ¬∃ st', st.feedAll (ts.take (k + 1)) = .ok st' := by
  induction ts generalizing st with
  | nil => simp [State.feedAll]
  | cons u ts ih =>
    cases hfeed : st.feed u with
    | none =>
      have hstop : ∀ us, st.feedAll (u :: us) = .error u := fun us => by rw [State.feedAll, hfeed]
      rw [hstop]
      constructor
      · rintro ⟨⟩
        refine ⟨0, rfl, ⟨st, rfl⟩, ?_⟩
        simp [hstop]
      · rintro ⟨k, hk, ⟨st', hst'⟩, -⟩
        cases k with
        | zero => exact congrArg Except.error (Option.some.inj hk)
        | succ k => simp [hstop] at hst'
    | some st₁ =>
      have hstep : ∀ us, st.feedAll (u :: us) = st₁.feedAll us := fun us => by
        rw [State.feedAll, hfeed]
      rw [hstep, ih]
      constructor
      · rintro ⟨k, hk, hread, hnot⟩
        refine ⟨k + 1, hk, ?_, ?_⟩
        · rwa [List.take_succ_cons, hstep]
        · rwa [List.take_succ_cons, hstep]
      · rintro ⟨k, hk, hread, hnot⟩
        cases k with
        | zero =>
          refine absurd ⟨st₁, ?_⟩ hnot
          rw [List.take_succ_cons, hstep]
          rfl
        | succ k =>
          rw [List.take_succ_cons, hstep] at hread hnot
          exact ⟨k, hk, hread, hnot⟩

section

variable {scan : Token.Scan}

/-- The fault that scanning ended with. -/
def scanFault? (scan : Token.Scan) : Option Error :=
  match scan.ending with
  | .finished => none
  | .illegal c => some (.illegal c scan.line)
  | .tooLong digits => some (.tooLong digits)

/-- Once all tokens have been taken, the outcome is up to how scanning ended. -/
lemma script_of_feedAll {st : State} (h : ({} : State).feedAll scan.tokens = .ok st) :
    (ofScan scan).script = match scanFault? scan, st.script? scan.line with
      | some e, _ => .error e
      | none, some s => .ok s
      | none, none => .error .unexpectedEnd := by
  unfold ofScan scanFault?
  rw [h]
  cases scan.ending with
  | finished => cases hs : st.script? scan.line <;> simp only [hs]
  | _ => rfl

lemma script_eq_unexpected_iff : (ofScan scan).script = .error (.unexpected t) ↔
    ({} : State).feedAll scan.tokens = .error t := by
  cases hread : ({} : State).feedAll scan.tokens with
  | error u => simp [ofScan, hread]
  | ok st =>
    unfold ofScan
    rw [hread]
    cases scan.ending with
    | finished => cases hs : st.script? scan.line <;> simp [hs]
    | _ => simp

/-- A fault other than an unexpected token is found only after tokens that start a script. -/
lemma exists_feedAll_of_script {e : Error} (h : (ofScan scan).script = .error e)
    (he : ∀ t, e ≠ .unexpected t) : ∃ st, ({} : State).feedAll scan.tokens = .ok st := by
  cases hread : ({} : State).feedAll scan.tokens with
  | error t =>
    rw [script_eq_unexpected_iff.2 hread] at h
    exact absurd (Except.error.inj h).symm (he t)
  | ok st => exact ⟨st, rfl⟩

lemma script_eq_unexpectedEnd_iff : (ofScan scan).script = .error .unexpectedEnd ↔
    scan.ending = .finished ∧ Viable scan.tokens ∧ ¬Accepted scan.tokens := by
  have hfault : scanFault? scan = none ↔ scan.ending = .finished := by
    unfold scanFault?
    cases scan.ending <;> simp
  rw [← hfault]
  constructor
  · intro h
    obtain ⟨st, hread⟩ := exists_feedAll_of_script h (by simp)
    rw [script_of_feedAll hread] at h
    split at h
    · next e _ hend =>
      obtain rfl := Except.error.inj h
      unfold scanFault? at hend
      cases hscan : scan.ending <;> simp [hscan] at hend
    · cases h
    · next hend hs =>
      refine ⟨hend, viable_iff.2 ⟨st, hread⟩, fun hacc => ?_⟩
      obtain ⟨st', hread', hdone⟩ := accepted_iff.1 hacc
      obtain rfl := Except.ok.inj (hread.symm.trans hread')
      rw [← isSome_script?_iff st scan.line, hs] at hdone
      cases hdone
  · rintro ⟨hend, hviable, hnot⟩
    obtain ⟨st, hread⟩ := viable_iff.1 hviable
    have hnone : st.script? scan.line = none := by
      rw [← Option.not_isSome_iff_eq_none, isSome_script?_iff]
      exact fun hdone => hnot (accepted_iff.2 ⟨st, hread, hdone⟩)
    rw [script_of_feedAll hread, hend, hnone]

lemma script_eq_fault_iff {e : Error} (he : ∀ t, e ≠ .unexpected t) (hend : e ≠ .unexpectedEnd) :
    (ofScan scan).script = .error e ↔ scanFault? scan = some e ∧ Viable scan.tokens := by
  constructor
  · intro h
    obtain ⟨st, hread⟩ := exists_feedAll_of_script h he
    rw [script_of_feedAll hread] at h
    split at h
    · next e' _ hfault => exact ⟨hfault.trans (congrArg some (Except.error.inj h)), viable_iff.2 ⟨st, hread⟩⟩
    · cases h
    · exact absurd (Except.error.inj h).symm hend
  · rintro ⟨hfault, hviable⟩
    obtain ⟨st, hread⟩ := viable_iff.1 hviable
    rw [script_of_feedAll hread, hfault]

lemma script_eq_illegal_iff {c : Char} {line : Nat} :
    (ofScan scan).script = .error (.illegal c line) ↔
      scan.ending = .illegal c ∧ scan.line = line ∧ Viable scan.tokens := by
  rw [script_eq_fault_iff (by simp) (by simp), ← and_assoc, scanFault?]
  cases scan.ending <;> simp

lemma script_eq_tooLong_iff {digits : Nat} : (ofScan scan).script = .error (.tooLong digits) ↔
    scan.ending = .tooLong digits ∧ Viable scan.tokens := by
  rw [script_eq_fault_iff (by simp) (by simp), scanFault?]
  cases scan.ending <;> simp

end

end Parse

open Parse in
/-- Parsing refuses the first token that no script has there, and the end if the text starts a
script without being one. A character that starts no token, or an integer with too many digits, is
reported if the tokens before it start a script. -/
theorem Script.error_of_parse_iff (line : Nat) (text : String) :
    let scan := Token.scan line text
    let result := (Script.parse line text).script
    (∀ t, result = .error (.unexpected t) ↔ ∃ k, scan.tokens[k]? = some t ∧
      Viable (scan.tokens.take k) ∧ ¬Viable (scan.tokens.take (k + 1))) ∧
    (result = .error .unexpectedEnd ↔
      scan.ending = .finished ∧ Viable scan.tokens ∧ ¬Accepted scan.tokens) ∧
    (∀ c l, result = .error (.illegal c l) ↔
      scan.ending = .illegal c ∧ scan.line = l ∧ Viable scan.tokens) ∧
    (∀ digits, result = .error (.tooLong digits) ↔
      scan.ending = .tooLong digits ∧ Viable scan.tokens) ∧
    (∀ t, (Failure.reading (.unexpected t)).diagnostic? = some ⟨"Parser", t.line,
      s!"Unexpected token ({t.lexeme.typeName}, '{t.lexeme.valueText}')"⟩) ∧
    (Failure.reading .unexpectedEnd).diagnostic? =
      some ⟨"Parser", -1, "Unexpected end of input"⟩ := by
  refine ⟨fun t => ?_, script_eq_unexpectedEnd_iff, fun _ _ => script_eq_illegal_iff,
    fun _ => script_eq_tooLong_iff, fun _ => rfl, rfl⟩
  simp only [Script.parse, script_eq_unexpected_iff, feedAll_eq_error_iff, viable_iff]

/-! ## Integers with too many digits -/

namespace Token

/-- Too many digits up to the end of a text. -/
lemma piece_tooLong {c : Char} {cs : List Char} (hcs : ∀ d ∈ c :: cs, Text.isDigit d = true)
    (hlen : maxDigits < (c :: cs).length) :
    piece c cs = (.tooLong (c :: cs).length, cs.length) := by
  have hc := hcs c List.mem_cons_self
  have hrun : cs.takeWhile Text.isDigit = cs :=
    List.takeWhile_eq_self_iff.2 fun d hd => hcs d (List.mem_cons_of_mem c hd)
  have hfloat : Lexeme.floatParts? (c :: cs) = none := by
    have hend : AtGap [] := by simp [AtGap]
    have h := floatParts?_digits hcs hend
    rwa [List.append_nil] at h
  rw [piece_digit hc, numberPiece]
  simp only [hfloat, hc, hrun, if_true]
  rw [if_pos hlen, List.length_cons, Nat.add_sub_cancel]

/-- A name, `=` and an integer with too many digits. -/
lemma scanFrom_assign {c : Char} {cs : List Char} (hcs : ∀ d ∈ c :: cs, Text.isDigit d = true)
    (hlen : maxDigits < (c :: cs).length) :
    scanFrom {} ('x' :: ' ' :: '=' :: ' ' :: c :: cs) =
      ⟨[⟨.name "x", 1, 1, 0⟩, ⟨.symbol .assign, 1, 3, 2⟩], .tooLong (c :: cs).length, 1⟩ := by
  have hx : piece 'x' ([] ++ ' ' :: '=' :: ' ' :: c :: cs) = (.lexeme (.name "x"), 0) :=
    piece_word (by decide) (by simp) (by simp [AtGap, startsGap])
  rw [List.nil_append] at hx
  have hspace : piece ' ' ('=' :: ' ' :: c :: cs) = (.blank, 0) := by
    simp [piece]
  have hassign : piece '=' (' ' :: c :: cs) = (.lexeme (.symbol .assign), 0) := by
    rw [StartsSymbol.piece_eq (by constructor <;> decide) fun h => absurd h (by decide)]
    rfl
  have hblank : piece ' ' (c :: cs) = (.blank, 0) := by
    have hc := hcs c List.mem_cons_self
    have hne : ¬(c = ' ' ∨ c = '\t') := by
      rintro (rfl | rfl) <;> exact absurd hc (by decide)
    simp [piece, hne]
  rw [scanFrom, hx]
  simp only [List.drop_zero]
  rw [scanFrom, hspace]
  simp only [List.drop_zero]
  rw [scanFrom, hassign]
  simp only [List.drop_zero]
  rw [scanFrom, hblank]
  simp only [List.drop_zero]
  rw [scanFrom, piece_tooLong hcs hlen]
  simp [Place.after, columnAfter]

lemma scan_assign_ones {n : Nat} (hn : maxDigits ≤ n) :
    scan 1 ("x = " ++ String.ofList (List.replicate (n + 1) '1')) =
      ⟨[⟨.name "x", 1, 1, 0⟩, ⟨.symbol .assign, 1, 3, 2⟩], .tooLong (n + 1), 1⟩ := by
  have hones : ∀ d ∈ '1' :: List.replicate n '1', Text.isDigit d = true := by
    intro d hd
    rw [← List.replicate_succ] at hd
    rw [List.eq_of_mem_replicate hd]
    decide
  have hlen : ('1' :: List.replicate n '1').length = n + 1 := by simp
  have h := scanFrom_assign hones (by omega)
  rw [hlen] at h
  simp only [scan, String.toList_append, String.toList_ofList, List.replicate_succ]
  exact h

end Token

/-- An assignment of an integer with one digit too many. -/
def overlongText : String := "x = " ++ String.ofList (List.replicate 4301 '1')

open Parse in
/-- No character of the text is illegal, and its tokens start a script without being one; yet it
is not the end of the text that is unexpected. -/
theorem parse_overlongText :
    let scan := Token.scan 1 overlongText
    (∀ c, scan.ending ≠ .illegal c) ∧ Viable scan.tokens ∧ ¬Accepted scan.tokens ∧
      (Script.parse 1 overlongText).script = .error (.tooLong 4301) := by
  have hscan : Token.scan 1 overlongText = _ := Token.scan_assign_ones (n := 4300) (Nat.le_refl _)
  have hviable : Viable (Token.scan 1 overlongText).tokens := by
    rw [hscan, viable_iff]
    exact ⟨_, rfl⟩
  refine ⟨?_, hviable, ?_, ?_⟩
  · rw [hscan]
    simp
  · rw [hscan, accepted_iff]
    rintro ⟨st, hread, hdone⟩
    cases hread
    cases hdone.2
  · exact script_eq_tooLong_iff.2 ⟨by rw [hscan], hviable⟩

end MatScript
