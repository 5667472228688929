import MatScript.Proofs.Rendering
import MatScript.Proofs.ViablePrefix

/-! Line numbers of texts that are read one after another. The parser carries line numbers along
and never looks at them, so it commutes with every map of line numbers; scanning only counts them
up. A text that starts on a later line therefore has the same outcome with all line numbers moved,
and reading moves on by the newlines that it passes. -/
namespace MatScript

/-! ## Trees with other line numbers -/

variable (f : Nat → Nat)

def Span.map (s : Span) : Span := ⟨f s.first, f s.last⟩

mutual

/-- The same expression with every line number replaced. -/
def Expr.mapLines : Expr → Expr
  | .constant s value => .constant (s.map f) value
  | .vector s items => .vector (s.map f) (Expr.mapLinesAll items)
  | .range s start stop => .range (s.map f) start.mapLines stop.mapLines
  | .operator s symbol operands => .operator (s.map f) symbol (Expr.mapLinesAll operands)
  | .call s function arguments => .call (s.map f) function (Expr.mapLinesAll arguments)
  | .name s id => .name (s.map f) id
  | .element s id idSpan indices indexSpan =>
    .element (s.map f) id (idSpan.map f) (Expr.mapLinesAll indices) (indexSpan.map f)
  | .gap s what => .gap (s.map f) what

def Expr.mapLinesAll : List Expr → List Expr
  | [] => []
  | e :: es => e.mapLines :: Expr.mapLinesAll es

end

mutual

/-- The same statement with every line number replaced. -/
def Stmt.mapLines : Stmt → Stmt
  | .block s body => .block (s.map f) (Stmt.mapLinesAll body)
  | .assign s target value => .assign (s.map f) (target.mapLines f) (value.mapLines f)
  | .update s symbol target value =>
    .update (s.map f) symbol (target.mapLines f) (value.mapLines f)
  | .instruction s name arguments => .instruction (s.map f) name (Expr.mapLinesAll f arguments)
  | .whileLoop s condition body => .whileLoop (s.map f) (condition.mapLines f) body.mapLines
  | .forLoop s id idSpan range body =>
    .forLoop (s.map f) id (idSpan.map f) (range.mapLines f) body.mapLines
  | .ifThen s condition yes => .ifThen (s.map f) (condition.mapLines f) yes.mapLines
  | .ifElse s condition yes no =>
    .ifElse (s.map f) (condition.mapLines f) yes.mapLines no.mapLines
  | .expr e => .expr (e.mapLines f)

def Stmt.mapLinesAll : List Stmt → List Stmt
  | [] => []
  | s :: ss => s.mapLines :: Stmt.mapLinesAll ss

end

lemma Expr.mapLinesAll_eq_map (es : List Expr) :
    Expr.mapLinesAll f es = es.map (Expr.mapLines f) := by
  induction es with
  | nil => rfl
  | cons e es ih => rw [Expr.mapLinesAll, ih, List.map_cons]

lemma Stmt.mapLinesAll_eq_map (ss : List Stmt) :
    Stmt.mapLinesAll f ss = ss.map (Stmt.mapLines f) := by
  induction ss with
  | nil => rfl
  | cons s ss ih => rw [Stmt.mapLinesAll, ih, List.map_cons]

lemma Expr.mapLinesAll_reverse (es : List Expr) :
    Expr.mapLinesAll f es.reverse = (Expr.mapLinesAll f es).reverse := by
  rw [Expr.mapLinesAll_eq_map, Expr.mapLinesAll_eq_map, List.map_reverse]

lemma Stmt.mapLinesAll_reverse (ss : List Stmt) :
    Stmt.mapLinesAll f ss.reverse = (Stmt.mapLinesAll f ss).reverse := by
  rw [Stmt.mapLinesAll_eq_map, Stmt.mapLinesAll_eq_map, List.map_reverse]

@[simp] lemma Expr.span_mapLines (e : Expr) : (e.mapLines f).span = e.span.map f := by
  cases e <;> rfl

namespace Token

def mapLine (t : Token) : Token := { t with line := f t.line }

def Scan.mapLines (scan : Scan) : Scan where
  tokens := scan.tokens.map (mapLine f)
  ending := scan.ending
  line := f scan.line

end Token

/-! ## Parsing -/

namespace Parse

def Frame.mapLines : Frame → Frame
  | negate line => negate (f line)
  | binary symbol left => binary symbol (left.mapLines f)
  | vector line items => vector (f line) (Expr.mapLinesAll f items)
  | element id idLine line isTarget items =>
    element id (f idLine) (f line) isTarget (Expr.mapLinesAll f items)
  | call function line items => call function (f line) (Expr.mapLinesAll f items)
  | assign target symbol => assign (target.mapLines f) symbol
  | print line items => print (f line) (Expr.mapLinesAll f items)
  | result line => result (f line)
  | whileCondition line => whileCondition (f line)
  | ifCondition line => ifCondition (f line)
  | rangeStart line id => rangeStart (f line) id
  | rangeStop line id start => rangeStop (f line) id (start.mapLines f)
  | whileBody line condition => whileBody (f line) (condition.mapLines f)
  | forBody line id range => forBody (f line) id (range.mapLines f)
  | thenBranch line condition => thenBranch (f line) (condition.mapLines f)
  | elseBranch line condition yes => elseBranch (f line) (condition.mapLines f) (yes.mapLines f)
  | block line first body => block (f line) (first.map f) (Stmt.mapLinesAll f body)

def Mode.mapLines : Mode → Mode
  | statement => statement
  | operand => operand
  | operator left => operator (left.mapLines f)
  | word id line isTarget => word id (f line) isTarget
  | target e => target (e.mapLines f)
  | opening frame => opening (frame.mapLines f)
  | loopName line => loopName (f line)
  | loopAssign line id => loopAssign (f line) id
  | jump line keyword => jump (f line) keyword
  | choice yes span => choice (yes.mapLines f) (span.map f)

def Turn.mapLines : Turn → Turn
  | goOn frame => goOn (frame.mapLines f)
  | give mode => give (mode.mapLines f)
  | complete s span => complete (s.mapLines f) (span.map f)

namespace State

def mapLines (st : State) : State where
  first := st.first.map f
  body := Stmt.mapLinesAll f st.body
  stack := st.stack.map (Frame.mapLines f)
  mode := st.mode.mapLines f

lemma stack_mapLines (st : State) :
    (st.mapLines f).stack = st.stack.map (Frame.mapLines f) := rfl

end State

variable {f}

lemma closeOperators_mapLines (level : Nat) (stack : List Frame) (e : Expr) :
    closeOperators level (stack.map (Frame.mapLines f)) (e.mapLines f) =
      ((closeOperators level stack e).1.mapLines f,
        (closeOperators level stack e).2.map (Frame.mapLines f)) := by
  induction stack generalizing e with
  | nil => rfl
  | cons frame rest ih =>
    cases frame with
    | negate line =>
      rw [closeOperators, ← ih, Expr.mapLines]
      simp only [List.map_cons, Frame.mapLines, closeOperators, Expr.span_mapLines, Span.map,
        Expr.mapLinesAll]
    | binary symbol left =>
      simp only [List.map_cons, Frame.mapLines, closeOperators, Expr.span_mapLines]
      split
      · rw [← ih, Expr.mapLines]
        simp only [Span.map, Expr.mapLinesAll]
      · rfl
    | _ => rfl

namespace State

lemma finish_mapLines (st : State) (final : Bool) (s : Stmt) (span : Span) (stack : List Frame) :
    (st.mapLines f).finish final (s.mapLines f) (span.map f) (stack.map (Frame.mapLines f)) =
      (st.finish final s span stack).mapLines f := by
  induction stack generalizing s span with
  | nil =>
    simp only [List.map_nil, finish, mapLines, Stmt.mapLinesAll, Span.map, Option.getD_map,
      Option.map_some, Mode.mapLines]
  | cons frame rest ih =>
    cases frame with
    | whileBody line condition =>
      exact ih (.whileLoop ⟨line, span.last⟩ condition s) ⟨line, span.last⟩
    | forBody line id range =>
      exact ih (.forLoop ⟨line, span.last⟩ id ⟨line, span.last⟩ range s) ⟨line, span.last⟩
    | elseBranch line condition yes =>
      exact ih (.ifElse ⟨line, span.last⟩ condition yes s) ⟨line, span.last⟩
    | thenBranch line condition =>
      cases final with
      | true => exact ih (.ifThen ⟨line, span.last⟩ condition s) ⟨line, span.last⟩
      | false => rfl
    | block line first body =>
      simp only [List.map_cons, Frame.mapLines, finish, mapLines, Stmt.mapLinesAll, Span.map,
        Option.getD_map, Option.map_some, Mode.mapLines]
    | _ => rfl

variable {st : State} {t u : Token}

lemma some_finish_mapLines {final : Bool} {s s' : Stmt} {span span' : Span} {stack : List Frame}
    (hs : s' = s.mapLines f) (hspan : span' = span.map f) :
    some ((st.mapLines f).finish final s' span' (stack.map (Frame.mapLines f))) =
      (some (st.finish final s span stack)).map (mapLines f) := by
  rw [hs, hspan, finish_mapLines, Option.map_some]

lemma feedStatement_mapLines (st : State) (hl : u.lexeme = t.lexeme) (hline : u.line = f t.line) :
    (st.mapLines f).feedStatement u = (st.feedStatement t).map (mapLines f) := by
  simp only [feedStatement, hl, hline]
  split
  case h_3 =>
    rw [stack_mapLines]
    rcases st.stack with - | ⟨frame, rest⟩
    · rfl
    cases frame with
    | block line first body =>
      simp only [List.map_cons, Frame.mapLines, Option.getD_map, ← Stmt.mapLinesAll_reverse]
      exact some_finish_mapLines rfl rfl
    | _ => rfl
  all_goals rfl

lemma feedOperand_mapLines (hl : u.lexeme = t.lexeme) (hline : u.line = f t.line) :
    (st.mapLines f).feedOperand u = (st.feedOperand t).map (mapLines f) := by
  simp only [feedOperand, hl, hline]
  split <;> rfl

lemma feedTarget_mapLines (e : Expr) (hl : u.lexeme = t.lexeme) :
    (st.mapLines f).feedTarget (e.mapLines f) u = (st.feedTarget e t).map (mapLines f) := by
  simp only [feedTarget, hl]
  split
  · split <;> rfl
  · rfl

lemma addItem?_mapLines (frame : Frame) (e : Expr) :
    (frame.mapLines f).addItem? (e.mapLines f) = (frame.addItem? e).map (Frame.mapLines f) := by
  cases frame <;> rfl

lemma ending?_mapLines (frame : Frame) (e : Expr) (last : Nat) :
    (frame.mapLines f).ending? (e.mapLines f) (f last) =
      (frame.ending? e last).map (Prod.map id (Turn.mapLines f)) := by
  have hitems (items : List Expr) : (e.mapLines f :: Expr.mapLinesAll f items).reverse =
      Expr.mapLinesAll f (e :: items).reverse := by
    rw [Expr.mapLinesAll_reverse, Expr.mapLinesAll]
  cases frame with
  | element id idLine line isTarget items =>
    simp only [Frame.ending?, Frame.mapLines, hitems]
    cases isTarget <;> rfl
  | assign target symbol =>
    simp only [Frame.ending?, Frame.mapLines, Expr.span_mapLines]
    by_cases hsymbol : symbol = .assign
    · simp only [if_pos hsymbol]
      rfl
    · simp only [if_neg hsymbol]
      rfl
  | vector | call | print =>
    simp only [Frame.ending?, Frame.mapLines, hitems]
    rfl
  | _ => rfl

/-- What a token makes of an open construct, with other line numbers. -/
lemma turn?_mapLines (frame : Frame) (e : Expr) (hl : u.lexeme = t.lexeme) (hline : u.line = f t.line) :
    (frame.mapLines f).turn? (e.mapLines f) u = (frame.turn? e t).map (Turn.mapLines f) := by
  simp only [Frame.turn?, hl, hline, addItem?_mapLines, ending?_mapLines]
  split
  · cases frame.addItem? e <;> rfl
  · cases frame.ending? e t.line with
    | none => rfl
    | some ending =>
      simp only [Option.map_some, Option.bind_some, Prod.map_fst, Prod.map_snd, id_eq]
      split <;> rfl
  · rfl

lemma after_mapLines (turn : Turn) (rest : List Frame) :
    (turn.mapLines f).after (st.mapLines f) (rest.map (Frame.mapLines f)) =
      (turn.after st rest).mapLines f := by
  cases turn with
  | goOn frame => cases frame <;> rfl
  | give mode => rfl
  | complete s span => exact finish_mapLines st false s span rest

lemma feedEnd_mapLines (stack : List Frame) (e : Expr) (hl : u.lexeme = t.lexeme)
    (hline : u.line = f t.line) :
    (st.mapLines f).feedEnd (stack.map (Frame.mapLines f)) (e.mapLines f) u =
      (st.feedEnd stack e t).map (mapLines f) := by
  rcases stack with - | ⟨frame, rest⟩
  · rfl
  by_cases hrange : ∃ line id start, frame = .rangeStop line id start
  · obtain ⟨line, id, start, rfl⟩ := hrange
    simp only [feedEnd, List.map_cons, Frame.mapLines, Expr.span_mapLines]
    let range : Expr := .range ⟨start.span.first, e.span.last⟩ start e
    exact feedStatement_mapLines { st with stack := .forBody line id range :: rest } hl hline
  · have hmapped : ∀ line id start, frame.mapLines f ≠ .rangeStop line id start := by
      intro line id start heq
      cases frame <;> cases heq
      exact hrange ⟨_, _, _, rfl⟩
    rw [List.map_cons, feedEnd_cons hmapped, feedEnd_cons (by simpa using hrange),
      turn?_mapLines frame e hl hline, Option.map_map, Option.map_map]
    congr 1
    funext turn
    exact after_mapLines turn rest

lemma feedOperator_mapLines (e : Expr) (hl : u.lexeme = t.lexeme) (hline : u.line = f t.line) :
    (st.mapLines f).feedOperator (e.mapLines f) u = (st.feedOperator e t).map (mapLines f) := by
  simp only [feedOperator, hl, hline, stack_mapLines, closeOperators_mapLines,
    feedEnd_mapLines _ _ hl hline]
  split
  · simp only [Expr.span_mapLines]
    rfl
  · split
    · rfl
    · rename_i level _
      rcases closeOperators (max level 1) st.stack e with ⟨e, - | ⟨frame, rest⟩⟩
      · rfl
      cases frame with
      | binary symbol left =>
        simp only [List.map_cons, Frame.mapLines]
        split <;> rfl
      | _ => rfl
  · rfl

lemma feed_mapLines (hl : u.lexeme = t.lexeme) (hline : u.line = f t.line) :
    (st.mapLines f).feed u = (st.feed t).map (mapLines f) := by
  have hmode : (st.mapLines f).mode = st.mode.mapLines f := rfl
  simp only [feed, hmode]
  cases st.mode with
  | statement => exact feedStatement_mapLines _ hl hline
  | operand => exact feedOperand_mapLines hl hline
  | operator e => exact feedOperator_mapLines e hl hline
  | word id line isTarget =>
    simp only [Mode.mapLines, hl, hline]
    split
    · rfl
    · cases isTarget with
      | true => exact feedTarget_mapLines (.name ⟨line, line⟩ id) hl
      | false => exact feedOperator_mapLines (.name ⟨line, line⟩ id) hl hline
  | target e => exact feedTarget_mapLines e hl
  | opening _ | loopName _ | loopAssign _ _ =>
    simp only [Mode.mapLines, hl]
    split <;> rfl
  | jump line keyword =>
    simp only [Mode.mapLines, hl, hline]
    split
    · exact some_finish_mapLines rfl rfl
    · rfl
  | choice yes span =>
    simp only [Mode.mapLines, stack_mapLines, hl]
    have hother : ((st.mapLines f).finish true (yes.mapLines f) (span.map f)
        (st.stack.map (Frame.mapLines f))).feedStatement u =
          ((st.finish true yes span st.stack).feedStatement t).map (mapLines f) := by
      rw [finish_mapLines]
      exact feedStatement_mapLines _ hl hline
    -- only `else` after a first branch is not passed on
    cases t.lexeme with
    | keyword k =>
      cases k with
      | «else» =>
        rcases hstack : st.stack with - | ⟨frame, rest⟩
        · rw [hstack] at hother
          exact hother
        · rw [hstack] at hother
          cases frame with
          | thenBranch line condition => rfl
          | _ => exact hother
      | _ => exact hother
    | _ => exact hother

lemma feedAll_mapLines (st : State) (ts : List Token) :
    (st.mapLines f).feedAll (ts.map (Token.mapLine f)) =
      match st.feedAll ts with
      | .ok after => .ok (after.mapLines f)
      | .error t => .error (t.mapLine f) := by
  induction ts generalizing st with
  | nil => rfl
  | cons t ts ih =>
    rw [List.map_cons, feedAll, feed_mapLines (u := t.mapLine f) (t := t) rfl rfl, feedAll]
    cases st.feed t with
    | none => rfl
    | some after => exact ih after

lemma settle_mapLines (st : State) : (st.mapLines f).settle = st.settle.mapLines f := by
  have hmode : (st.mapLines f).mode = st.mode.mapLines f := rfl
  simp only [settle, hmode]
  cases st.mode with
  | choice yes span => exact finish_mapLines st true yes span st.stack
  | _ => rfl

lemma script?_mapLines (st : State) (line : Nat) :
    (st.mapLines f).script? (f line) = (st.script? line).map (Stmt.mapLines f) := by
  rw [script?_eq, script?_eq, settle_mapLines]
  rcases st.settle with ⟨first, body, stack, mode⟩
  simp only [mapLines, Option.getD_map, ← Stmt.mapLinesAll_reverse]
  cases mode with
  | statement => cases stack <;> rfl
  | _ => rfl

end State

/-- An error with other line numbers. The end of the text and a literal that is too long have
none. -/
def Error.mapLines (f : Nat → Nat) : Error → Error
  | unexpected t => unexpected (t.mapLine f)
  | unexpectedEnd => unexpectedEnd
  | illegal c line => illegal c (f line)
  | tooLong digits => tooLong digits

def Outcome.mapLines (f : Nat → Nat) (o : Outcome) : Outcome where
  script := match o.script with
    | .ok s => .ok (s.mapLines f)
    | .error e => .error (e.mapLines f)
  line := f o.line

/-- Parsing commutes with every map of line numbers. -/
theorem ofScan_mapLines (f : Nat → Nat) (scan : Token.Scan) :
    ofScan (scan.mapLines f) = (ofScan scan).mapLines f := by
  have hempty : ({} : State) = ({} : State).mapLines f := rfl
  simp only [ofScan, Token.Scan.mapLines]
  rw [hempty, State.feedAll_mapLines, ← hempty]
  cases ({} : State).feedAll scan.tokens with
  | error t => rfl
  | ok st =>
    cases scan.ending with
    | finished =>
      simp only [State.script?_mapLines]
      cases st.script? scan.line <;> rfl
    | _ => rfl

end Parse

/-! ## Scanning -/

namespace Token

variable {c : Char} {rest : List Char} {n : Nat}

lemma Place.after_add (k : Nat) (p : Place) (pc : Piece) (cs : List Char) :
    Place.after { p with line := p.line + k } pc cs =
      { p.after pc cs with line := (p.after pc cs).line + k } := by
  cases pc with
  | newline => simp only [Place.after, Nat.add_right_comm]
  | _ => rfl

/-- From a later line on, the same tokens are found as many lines later. -/
lemma scanFrom_add (k : Nat) (p : Place) (cs : List Char) :
    scanFrom { p with line := p.line + k } cs = (scanFrom p cs).mapLines (· + k) := by
  fun_induction scanFrom p cs with
  | case1 p => rw [scanFrom]; rfl
  | case2 p c rest more hpiece => rw [scanFrom, hpiece]; rfl
  | case3 p c rest more digits hpiece => rw [scanFrom, hpiece]; rfl
  | case4 p c rest more l hpiece next scan ih =>
    rw [scanFrom, hpiece]
    simp only [Place.after_add]
    rw [ih]
    rfl
  | case5 p c rest pc more hpiece next hillegal hlong hlexeme ih =>
    rw [scanFrom_gap (Piece.isGap_of_ne hillegal hlong hlexeme) hpiece, Place.after_add]
    exact ih

lemma eq_of_piece_newline (h : piece c rest = (.newline, n)) :
    c = '\n' ∧ n = (rest.takeWhile (· = '\n')).length := by
  rw [piece] at h
  split at h
  · cases h
  split at h
  · cases h
  split at h
  · next hc =>
    cases h
    exact ⟨hc, rfl⟩
  split at h
  · cases h
  split at h
  · split at h <;> cases h
  · exact absurd (congrArg Prod.fst h) (numberPiece_ne (.inl rfl))

/-- A newline piece holds newlines only. -/
lemma count_of_newline (h : piece c rest = (.newline, n)) :
    (c :: rest.take n).count '\n' = (c :: rest.take n).length := by
  obtain ⟨rfl, rfl⟩ := eq_of_piece_newline h
  rw [List.count_eq_length]
  intro d hd
  rcases List.mem_cons.1 hd with rfl | hd
  · rfl
  · nth_rewrite 2 [← List.takeWhile_append_dropWhile (p := (· = '\n')) (l := rest)] at hd
    rw [List.take_left] at hd
    have hnewline := List.mem_takeWhile_imp hd
    exact (of_decide_eq_true hnewline).symm

end Token

theorem Script.parse_add (line k : Nat) (text : String) :
    Script.parse (line + k) text = (Script.parse line text).mapLines (· + k) := by
  rw [Script.parse, Token.scan, Token.scanFrom_add k ⟨line, 1, 0⟩, Parse.ofScan_mapLines]
  rfl

/-! ## The lines that are passed -/

namespace Parse

/-- How many newlines between tokens are passed while a text is read from a state of the parser.
Reading stops at a token that does not fit and at a fault of scanning. -/
def newlinesFrom (st : State) : List Char → Nat
  | [] => 0
  | c :: rest =>
    let (piece, more) := Token.piece c rest
    match piece with
    | .newline => (c :: rest.take more).count '\n' + newlinesFrom st (rest.drop more)
    | .blank | .comment => newlinesFrom st (rest.drop more)
    | .lexeme l =>
      match st.feed (tokenOf l) with
      | some st => newlinesFrom st (rest.drop more)
      | none => 0
    | .illegal | .tooLong _ => 0
  termination_by cs => cs.length
  decreasing_by all_goals simp only [List.length_cons, List.length_drop]; omega

/-- How many newlines between tokens are passed while a text is parsed. -/
def newlinesRead (text : String) : Nat := newlinesFrom {} text.toList

/-- The line that is reached once the tokens are taken, up to the first that does not fit. -/
def State.lineAfter (st : State) (scan : Token.Scan) : Nat :=
  match st.feedAll scan.tokens with
  | .error t => t.line
  | .ok _ => scan.line

lemma line_ofScan (scan : Token.Scan) : (ofScan scan).line = ({} : State).lineAfter scan := by
  rw [ofScan, State.lineAfter]
  cases ({} : State).feedAll scan.tokens <;> rfl

/-- Reading moves on by the newlines that it passes; where the tokens stand makes no difference. -/
lemma lineAfter_scanFrom (st : State) (p : Token.Place) (cs : List Char) :
    st.lineAfter (Token.scanFrom p cs) = p.line + newlinesFrom (st.mapLines fun _ => 0) cs := by
  fun_induction Token.scanFrom p cs generalizing st with
  | case1 p => rw [newlinesFrom]; rfl
  | case2 p c rest more hpiece => rw [newlinesFrom, hpiece]; rfl
  | case3 p c rest more digits hpiece => rw [newlinesFrom, hpiece]; rfl
  | case4 p c rest more l hpiece next scan ih =>
    rw [newlinesFrom, hpiece, State.lineAfter]
    simp only [State.feedAll]
    rw [State.feed_mapLines (u := tokenOf l) (t := ⟨l, p.line, p.column, p.offset⟩) rfl rfl]
    cases st.feed ⟨l, p.line, p.column, p.offset⟩ with
    | none => rfl
    | some after => exact ih after
  | case5 p c rest pc more hpiece next hillegal hlong hlexeme ih =>
    rw [ih, newlinesFrom, hpiece]
    rcases Token.Piece.isGap_of_ne hillegal hlong hlexeme with rfl | rfl | rfl
    · rfl
    · simp only [next, Token.Place.after, Token.count_of_newline hpiece]
      omega
    · rfl

end Parse

theorem Script.line_parse (line : Nat) (text : String) :
    (Script.parse line text).line = line + Parse.newlinesRead text := by
  rw [Script.parse, Parse.line_ofScan, Token.scan, Parse.lineAfter_scanFrom]
  rfl

/-! ## Texts one after another -/

/-- The diagnostic of a text that is not a script. A literal that is too long has none. -/
def Parse.Outcome.diagnostic? (o : Parse.Outcome) : Option Diagnostic :=
  match o.script with
  | .error e => (Failure.reading e).diagnostic?
  | .ok _ => none

/-- The diagnostic as many lines later. Line -1 stands for the end of the text and stays. -/
def Diagnostic.shift (k : Nat) (d : Diagnostic) : Diagnostic :=
  if d.line = -1 then d else { d with line := d.line + k }

lemma Parse.Outcome.diagnostic?_mapLines (k : Nat) (o : Parse.Outcome) :
    (o.mapLines (· + k)).diagnostic? = o.diagnostic?.map (Diagnostic.shift k) := by
  have hline (line : Nat) : (line : Int) ≠ -1 := by omega
  rcases o with ⟨script, line⟩
  cases script with
  | ok s => rfl
  | error e =>
    cases e with
    | unexpected t =>
      simp [diagnostic?, mapLines, Error.mapLines, Token.mapLine, Failure.diagnostic?,
        Diagnostic.unexpected, Diagnostic.shift, hline]
    | unexpectedEnd => rfl
    | illegal c line =>
      simp [diagnostic?, mapLines, Error.mapLines, Failure.diagnostic?, Diagnostic.illegal,
        Diagnostic.shift, hline]
    | tooLong digits => rfl

namespace Session

variable (s : Session) (fuel : Nat) (stages : Stages)

lemma line_check (script : Stmt) : (s.check script).2.line = s.line := by
  rw [check]
  split <;> rfl

lemma line_onMachine (r : Run Value) : (s.onMachine r).2.line = s.line := by
  rw [onMachine]
  split <;> rfl

lemma line_perform (script : Stmt) : (s.perform fuel stages script).2.line = s.line := by
  have hchecked : (if stages.check then s.check script else (.ok .none, s)).2.line = s.line := by
    split
    · exact s.line_check script
    · rfl
  rw [perform]
  generalize (if stages.check then s.check script else (.ok .none, s)) = pair at hchecked ⊢
  rcases pair with ⟨_ | t, after⟩
  · exact hchecked
  · have hran := after.line_onMachine (script.run fuel)
    dsimp only
    split
    · generalize after.onMachine (script.run fuel) = ran at hran ⊢
      rcases ran with ⟨_ | v, last⟩ <;> exact hran.trans hchecked
    · exact hchecked

lemma line_run (text : String) :
    (s.run fuel stages text).2.line = s.line + Parse.newlinesRead text := by
  rw [← Script.line_parse, run]
  dsimp only
  split
  · rfl
  · rw [line_perform]

/-- The session after texts are read, checked and run as asked, whatever comes of each. -/
def afterTexts (texts : List (Nat × Stages × String)) : Session :=
  texts.foldl (fun s step => (s.run step.1 step.2.1 step.2.2).2) s

lemma line_afterTexts (texts : List (Nat × Stages × String)) :
    (s.afterTexts texts).line =
      s.line + (texts.map fun step => Parse.newlinesRead step.2.2).sum := by
  induction texts generalizing s with
  | nil => rfl
  | cons step texts ih =>
    rw [afterTexts, List.foldl_cons, ← afterTexts, ih, line_run, List.map_cons, List.sum_cons,
      Nat.add_assoc]

/-- A text that is read after others, whatever came of them, has the outcome that it has as the
first one, with all line numbers moved on; and reading it moves on by the newlines between tokens
that are passed before it ends or is given up. -/
theorem reading_only_moves_lines (texts : List (Nat × Stages × String)) (fuel : Nat)
    (stages : Stages) (text : String) :
    let s := ({} : Session).afterTexts texts
    1 ≤ s.line ∧
      Script.parse s.line text = (Script.parse 1 text).mapLines (· + (s.line - 1)) ∧
      (Script.parse s.line text).diagnostic? =
        (Script.parse 1 text).diagnostic?.map (Diagnostic.shift (s.line - 1)) ∧
      (s.run fuel stages text).2.line = s.line + Parse.newlinesRead text := by
  intro s
  have hline : 1 ≤ s.line := by
    rw [line_afterTexts]
    exact Nat.le_add_right 1 _
  have hparse : Script.parse s.line text = (Script.parse 1 text).mapLines (· + (s.line - 1)) := by
    nth_rewrite 1 [← Nat.add_sub_cancel' hline]
    exact Script.parse_add 1 (s.line - 1) text
  refine ⟨hline, hparse, ?_, s.line_run fuel stages text⟩
  rw [hparse, Parse.Outcome.diagnostic?_mapLines]

end Session

end MatScript
