import MatScript.Proofs.Grammar

/-! What the parser accepts is in normal form and is written as the tokens that were read. The
invariant reads the lexemes back off the open constructs. -/
namespace MatScript
namespace Parse

/-- What a place in a script takes. -/
inductive Slot where
  | statement | operand

def Slot.mode : Slot → Mode
  | statement => .statement
  | operand => .operand

/-- Items read so far, the last first, each with the comma after it. -/
def followedLexemes (items : List Expr) : List Lexeme :=
  items.reverse.flatMap fun e => e.lexemes ++ [.symbol .comma]

lemma followedLexemes_cons (e : Expr) (items : List Expr) :
    followedLexemes (e :: items) = followedLexemes items ++ e.lexemes ++ [.symbol .comma] := by
  simp [followedLexemes]

lemma separated_reverse (e : Expr) (items : List Expr) :
    Lexeme.separated (Expr.lexemesAll (items.reverse ++ [e])) =
      followedLexemes items ++ e.lexemes := by
  rw [Expr.lexemesAll_eq_map, List.map_append, List.map_singleton, followedLexemes]
  induction items.reverse with
  | nil => simp [Lexeme.separated]
  | cons i is ih =>
    cases is with
    | nil => simp [Lexeme.separated]
    | cons j js => simp_all [Lexeme.separated, List.intercalate]

namespace Frame

/-- What the construct waits for. -/
def inside : Frame → Slot
  | whileBody _ _ | forBody _ _ _ | thenBranch _ _ | elseBranch _ _ _ | block _ _ _ => .statement
  | _ => .operand

/-- The place that the construct stands at. -/
def outside : Frame → Slot
  | negate _ | binary _ _ | vector _ _ | call _ _ _ => .operand
  | element _ _ _ isTarget _ => if isTarget then .statement else .operand
  | _ => .statement

/-- The lexemes of an open construct up to the place that it waits at. -/
def lexemes : Frame → List Lexeme
  | negate _ => [.symbol .minus]
  | binary symbol left => left.lexemes ++ [.symbol symbol]
  | vector _ items => .symbol .squareLeft :: followedLexemes items
  | element id _ _ _ items => .name id :: .symbol .squareLeft :: followedLexemes items
  | call function _ items => .keyword function :: .symbol .roundLeft :: followedLexemes items
  | assign target symbol => target.lexemes ++ [.symbol symbol]
  | print _ items => .keyword .print :: followedLexemes items
  | result _ => [.keyword .return]
  | whileCondition _ => [.keyword .while, .symbol .roundLeft]
  | ifCondition _ => [.keyword .if, .symbol .roundLeft]
  | rangeStart _ id => [.keyword .for, .name id, .symbol .assign]
  | rangeStop _ id start =>
    .keyword .for :: .name id :: .symbol .assign :: start.lexemes ++ [.symbol .colon]
  | whileBody _ condition =>
    .keyword .while :: .symbol .roundLeft :: condition.lexemes ++ [.symbol .roundRight]
  | forBody _ id range => .keyword .for :: .name id :: .symbol .assign :: range.lexemes
  | thenBranch _ condition =>
    .keyword .if :: .symbol .roundLeft :: condition.lexemes ++ [.symbol .roundRight]
  | elseBranch _ condition yes =>
    .keyword .if :: .symbol .roundLeft :: condition.lexemes ++ .symbol .roundRight :: yes.lexemes ++
      [.keyword .else]
  | block _ _ body => .symbol .curlyLeft :: Stmt.lexemesAll body.reverse

/-- The parts read so far are in normal form. -/
def Normal : Frame → Prop
  | binary symbol left =>
    left.Normal ∧ ∃ k, symbol.level? = some k ∧ max k 1 ≤ left.level
  | vector _ items | element _ _ _ _ items | print _ items => Expr.NormalAll items
  | call function _ items => function.MakesMatrix ∧ Expr.NormalAll items
  | assign target symbol => target.IsTarget ∧ target.Normal ∧ symbol.isAssignment
  | rangeStop _ _ start => start.Normal
  | whileBody _ condition | thenBranch _ condition => condition.Normal
  | forBody _ _ range => range.NormalRange
  | elseBranch _ condition yes => condition.Normal ∧ yes.Normal ∧ yes.endsOpen = false
  | block _ _ body => Stmt.NormalAll body
  | _ => True

/-- The least level of an operand that the construct takes. -/
def floor : Frame → Nat
  | negate _ => 3
  | binary symbol _ => symbol.level?.getD 0 + 1
  | _ => 0

/-- The level of the expression that the construct becomes. -/
def level : Frame → Nat
  | negate _ => 3
  | binary symbol _ => symbol.level?.getD 0
  | _ => 5

lemma floor_binary {symbol : Symbol} {left : Expr} {k : Nat} (h : symbol.level? = some k) :
    (binary symbol left).floor = k + 1 := by
  rw [floor, h, Option.getD_some]

lemma level_binary {symbol : Symbol} {left : Expr} {k : Nat} (h : symbol.level? = some k) :
    (binary symbol left).level = k := by
  rw [level, h, Option.getD_some]

end Frame

/-- The least level of an operand that the innermost construct takes. -/
def floor : List Frame → Nat
  | [] => 0
  | frame :: _ => frame.floor

/-- The constructs stand one in another, down to the whole script, and the innermost one waits
for what the slot says. -/
def Nested : Slot → List Frame → Prop
  | slot, [] => slot = .statement
  | slot, frame :: rest =>
    frame.inside = slot ∧ frame.Normal ∧ floor rest ≤ frame.level ∧ Nested frame.outside rest

def stackLexemes : List Frame → List Lexeme
  | [] => []
  | frame :: rest => stackLexemes rest ++ frame.lexemes

namespace Mode

/-- The lexemes that have been read since the innermost construct was opened. -/
def lexemes : Mode → List Lexeme
  | statement | operand => []
  | operator e | target e => e.lexemes
  | word id _ _ => [.name id]
  | opening frame => frame.lexemes.dropLast
  | loopName _ => [.keyword .for]
  | loopAssign _ id => [.keyword .for, .name id]
  | jump _ keyword => [.keyword keyword]
  | choice yes _ => yes.lexemes

/-- What has been read is in normal form and stands where the open constructs wait for it. -/
def Fits (stack : List Frame) : Mode → Prop
  | statement | loopName _ | loopAssign _ _ => Nested .statement stack
  | operand => Nested .operand stack
  | operator e => Nested .operand stack ∧ e.Normal ∧ 4 ≤ e.level
  | word _ _ isTarget => Nested (if isTarget then .statement else .operand) stack
  | target e => Nested .statement stack ∧ e.IsTarget ∧ e.Normal
  | opening frame =>
    Nested .operand (frame :: stack) ∧ ∃ k, frame.lexemes = [.keyword k, .symbol .roundLeft]
  | jump _ keyword => Nested .statement stack ∧ keyword.LeavesRound
  | choice yes _ =>
    Nested .statement stack ∧ yes.Normal ∧ yes.endsOpen = false ∧
      ∃ line condition rest, stack = .thenBranch line condition :: rest

end Mode

namespace State

/-- The lexemes of the statements and of the open constructs, without the mode's. -/
def opened (st : State) (stack : List Frame) : List Lexeme :=
  Stmt.lexemesAll st.body.reverse ++ stackLexemes stack

def lexemes (st : State) : List Lexeme := st.opened st.stack ++ st.mode.lexemes

/-- The invariant of parsing. -/
structure Valid (st : State) : Prop where
  body : Stmt.NormalAll st.body
  mode : st.mode.Fits st.stack

/-- `after` is valid, and `ls` has been read since the constructs on `stack` were open. -/
structure Follows (st : State) (stack : List Frame) (ls : List Lexeme) (after : State) : Prop where
  valid : after.Valid
  lexemes_eq : after.lexemes = st.opened stack ++ ls

end State

/-! ## Complete expressions -/

lemma floor_le_three (stack : List Frame) : floor stack ≤ 3 := by
  cases stack with
  | nil => exact Nat.zero_le 3
  | cons frame rest =>
    cases frame with
    | binary symbol left =>
      have h : symbol.level?.getD 0 ≤ 2 := by cases symbol <;> decide
      exact Nat.succ_le_succ h
    | negate _ => exact Nat.le_refl 3
    | _ => exact Nat.zero_le 3

/-- A construct in brackets or at the start of a statement is opened. -/
lemma nested_cons {frame : Frame} {stack : List Frame} (hn : Nested frame.outside stack)
    (hframe : frame.Normal) (hl : frame.level = 5) : Nested frame.inside (frame :: stack) := by
  have hf := floor_le_three stack
  exact ⟨rfl, hframe, by omega, hn⟩

namespace State

namespace Follows

variable {st st' : State} {stack : List Frame} {ls : List Lexeme}

/-- The innermost construct counts as read. -/
lemma of_frame {frame : Frame} (h : st.Follows stack (frame.lexemes ++ ls) st') :
    st.Follows (frame :: stack) ls st' := by
  refine ⟨h.valid, ?_⟩
  rw [h.lexemes_eq, opened, opened, stackLexemes, List.append_assoc, List.append_assoc,
    List.append_assoc]

lemma of_goOn {stack' : List Frame} {mode : Mode} (h : st.goOn stack' mode = some st')
    (hb : Stmt.NormalAll st.body) (hfits : mode.Fits stack')
    (hls : stackLexemes stack' ++ mode.lexemes = stackLexemes stack ++ ls) :
    st.Follows stack ls st' := by
  obtain rfl := Option.some.inj h
  refine ⟨⟨hb, hfits⟩, ?_⟩
  rw [lexemes, opened, opened, List.append_assoc, List.append_assoc]
  exact congrArg _ hls

/-- A construct is opened, or goes on. -/
lemma of_open {stack' : List Frame} {frame : Frame}
    (h : st.goOn (frame :: stack') frame.inside.mode = some st') (hb : Stmt.NormalAll st.body)
    (hn : Nested frame.outside stack') (hframe : frame.Normal) (hl : frame.level = 5)
    (hls : stackLexemes stack' ++ frame.lexemes = stackLexemes stack ++ ls) :
    st.Follows stack ls st' := by
  refine of_goOn h hb ?_ ?_
  · have hnest := nested_cons hn hframe hl
    revert hnest
    cases frame.inside <;> exact id
  · rw [stackLexemes, hls]
    cases frame.inside <;> exact List.append_nil _

end Follows

end State

/-- No construct that is left can be completed. -/
lemma floor_closeOperators_le (level : Nat) (stack : List Frame) (e : Expr) :
    floor (closeOperators level stack e).2 ≤ level := by
  induction stack generalizing e with
  | nil => exact Nat.zero_le level
  | cons frame rest ih =>
    cases frame with
    | negate line => exact ih _
    | binary symbol left =>
      rw [closeOperators]
      split
      · exact ih _
      · next h => exact Nat.lt_of_not_le h
    | _ => exact Nat.zero_le level

namespace State

variable {st : State} {t : Token} {e : Expr}

lemma feedOperator_apostrophe (ht : t.lexeme = .symbol .apostrophe) :
    st.feedOperator e t = st.goOn st.stack
      (.operator (.operator ⟨e.span.first, t.line⟩ Symbol.apostrophe.spelling [e])) := by
  unfold feedOperator
  rw [ht]

lemma feedOperator_end (ht : ∀ s, t.lexeme = .symbol s → s ≠ .apostrophe ∧ s.level? = none) :
    st.feedOperator e t =
      st.feedEnd (closeOperators 0 st.stack e).2 (closeOperators 0 st.stack e).1 t := by
  unfold feedOperator
  cases hl : t.lexeme with
  | symbol s =>
    obtain ⟨hs, hlevel⟩ := ht s hl
    cases s <;> first | rfl | exact absurd rfl hs | cases hlevel
  | _ => rfl

/-- What an operator does where another one of a lower level still waits. -/
lemma feedOperator_chain {s s' : Symbol} {k : Nat} {e' left : Expr} {rest : List Frame}
    (ht : t.lexeme = .symbol s) (hs : s.level? = some k)
    (hr : closeOperators (max k 1) st.stack e = (e', .binary s' left :: rest)) :
    st.feedOperator e t =
      if k = 0 then none else st.goOn (.binary s e' :: .binary s' left :: rest) .operand := by
  unfold feedOperator
  rw [ht]
  cases s <;> cases hs <;> simp only [Symbol.level?, hr]

/-- What an operator does where no other one waits. -/
lemma feedOperator_push {s : Symbol} {k : Nat} {e' : Expr} {stack : List Frame}
    (ht : t.lexeme = .symbol s) (hs : s.level? = some k)
    (hr : closeOperators (max k 1) st.stack e = (e', stack))
    (hnot : ∀ s' left rest, stack ≠ .binary s' left :: rest) :
    st.feedOperator e t = st.goOn (.binary s e' :: stack) .operand := by
  unfold feedOperator
  rw [ht]
  cases s <;> cases hs <;> simp only [Symbol.level?, hr]

/-- An operator takes what binds at least as tightly on its left, and comparisons do not chain. -/
lemma feedOperator_binary {s : Symbol} {k : Nat} (ht : t.lexeme = .symbol s)
    (hs : s.level? = some k) :
    st.feedOperator e t =
      if floor (closeOperators (max k 1) st.stack e).2 ≤ k then
        st.goOn (.binary s (closeOperators (max k 1) st.stack e).1 ::
          (closeOperators (max k 1) st.stack e).2) .operand
      else none := by
  have hfloor := floor_closeOperators_le (max k 1) st.stack e
  have hk := Symbol.level?_le_two hs
  rcases hr : closeOperators (max k 1) st.stack e with ⟨e', stack⟩
  rw [hr] at hfloor
  dsimp only at hfloor ⊢
  cases stack with
  | nil => exact (feedOperator_push ht hs hr (by simp)).trans (if_pos (Nat.zero_le k)).symm
  | cons frame rest =>
    cases frame with
    | binary s' left =>
      have hpos : 1 ≤ floor (.binary s' left :: rest) := Nat.le_add_left 1 _
      rw [feedOperator_chain ht hs hr]
      by_cases hzero : k = 0
      · rw [if_pos hzero, if_neg (by omega)]
      · rw [if_neg hzero, if_pos (by omega)]
    | negate line =>
      -- a sign binds tighter than any operator with two operands
      have hthree : 3 ≤ max k 1 := hfloor
      omega
    | _ => exact (feedOperator_push ht hs hr (by simp)).trans (if_pos (Nat.zero_le k)).symm

end State

/-- What closing operators down to a level leaves: an expression of that level, which stands where
the constructs left wait for it. -/
structure Closes (level : Nat) (stack : List Frame) (e : Expr) (r : Expr × List Frame) : Prop where
  normal : r.1.Normal
  level_le : level ≤ r.1.level
  nested : Nested .operand r.2
  lexemes_eq : stackLexemes r.2 ++ r.1.lexemes = stackLexemes stack ++ e.lexemes

lemma Closes.of_lexemes {level : Nat} {stack stack' : List Frame} {e e' : Expr}
    {r : Expr × List Frame} (h : Closes level stack' e' r)
    (hls : stackLexemes stack' ++ e'.lexemes = stackLexemes stack ++ e.lexemes) :
    Closes level stack e r :=
  ⟨h.normal, h.level_le, h.nested, h.lexemes_eq.trans hls⟩

lemma operatorLevel_spelling {s : Symbol} {k : Nat} (h : s.level? = some k) :
    operatorLevel s.spelling = k := by
  simp [operatorLevel, s.spelling_ne_negation, h]

lemma closes_closeOperators {level : Nat} (hl : level ≤ 2) (stack : List Frame) (e : Expr)
    (hn : Nested .operand stack) (he : e.Normal) (hle : level ≤ e.level)
    (hf : floor stack ≤ e.level) : Closes level stack e (closeOperators level stack e) := by
  induction stack generalizing e with
  | nil => exact ⟨he, hle, hn, rfl⟩
  | cons frame rest ih =>
    obtain ⟨hin, hframe, hbelow, hrest⟩ := hn
    cases frame with
    | negate line =>
      have hlevel : (Expr.operator ⟨line, e.span.last⟩ "u-" [e]).level = 3 := rfl
      have hnormal : (Expr.operator ⟨line, e.span.last⟩ "u-" [e]).Normal :=
        ⟨.inl ⟨rfl, hf⟩, he, trivial⟩
      refine (ih _ hrest hnormal (by omega) (floor_le_three rest)).of_lexemes ?_
      rw [stackLexemes, Frame.lexemes, List.append_assoc]
      rfl
    | binary symbol left =>
      obtain ⟨hleft, k, hk, hkl⟩ := hframe
      rw [floor, Frame.floor_binary hk] at hf
      rw [Frame.level_binary hk] at hbelow
      rw [closeOperators]
      simp only [hk, Option.getD_some]
      split
      · next hclose =>
        let whole := Expr.operator ⟨left.span.first, e.span.last⟩ symbol.spelling [left, e]
        have hlevel : whole.level = k := operatorLevel_spelling hk
        have hnormal : whole.Normal :=
          ⟨⟨symbol, k, rfl, hk, hkl, hf⟩, hleft, he, trivial⟩
        refine (ih whole hrest hnormal (by omega) (by omega)).of_lexemes ?_
        simp [whole, stackLexemes, Frame.lexemes, Expr.lexemes, Expr.lexemesAll, Lexeme.ofOperator]
      · next hstop =>
        refine ⟨he, hle, ⟨hin, ⟨hleft, k, hk, hkl⟩, ?_, hrest⟩, rfl⟩
        rw [Frame.level_binary hk]
        exact hbelow
    | _ => exact ⟨he, hle, ⟨hin, hframe, hbelow, hrest⟩, rfl⟩

/-! ## Ends of expressions -/

/-- What a token after a complete expression makes of the construct around the expression. -/
inductive Turn where
  /-- The construct goes on, with another item or with its next part. -/
  | goOn (frame : Frame)
  /-- It is complete, as an operand or a target. -/
  | give (mode : Mode)
  /-- It is complete, as a statement. -/
  | complete (s : Stmt) (span : Span)

def Turn.after (st : State) (rest : List Frame) : Turn → State
  | goOn frame => { st with stack := frame :: rest, mode := frame.inside.mode }
  | give mode => { st with stack := rest, mode }
  | complete s span => st.finish false s span rest

/-- An open construct with one more item, if it is one of items with commas between them. -/
def Frame.addItem? (e : Expr) : Frame → Option Frame
  | .vector line items => some (.vector line (e :: items))
  | .element id idLine line isTarget items => some (.element id idLine line isTarget (e :: items))
  | .call function line items => some (.call function line (e :: items))
  | .print line items => some (.print line (e :: items))
  | _ => none

/-- The symbol after the last expression `e` of an open construct, and what it makes of the construct
on the line `last`. A range is ended by no symbol of its own. -/
def Frame.ending? (e : Expr) (last : Nat) : Frame → Option (Symbol × Turn)
  | .vector line items =>
    some (.squareRight, .give (.operator (.vector ⟨line, last⟩ (e :: items).reverse)))
  | .element id idLine line isTarget items =>
    let element := .element ⟨idLine, last⟩ id ⟨idLine, idLine⟩ (e :: items).reverse ⟨line, last⟩
    some (.squareRight, .give (if isTarget then .target element else .operator element))
  | .call function line items =>
    let call := .call ⟨line, last⟩ function.spelling (e :: items).reverse
    some (.roundRight, .give (.operator call))
  | .print line items =>
    let span := ⟨line, last⟩
    let s := .instruction span Keyword.print.spelling (e :: items).reverse
    some (.semicolon, .complete s span)
  | .assign target symbol =>
    let span := ⟨target.span.first, last⟩
    let s := if symbol = .assign then .assign span target e else .update span symbol.spelling target e
    some (.semicolon, .complete s span)
  | .result line =>
    let span := ⟨line, last⟩
    some (.semicolon, .complete (.instruction span Keyword.return.spelling [e]) span)
  | .whileCondition line => some (.roundRight, .goOn (.whileBody line e))
  | .ifCondition line => some (.roundRight, .goOn (.thenBranch line e))
  | .rangeStart line id => some (.colon, .goOn (.rangeStop line id e))
  | _ => none

/-- What the token `t` after `e` makes of an open construct, if it may stand there. -/
def Frame.turn? (e : Expr) (t : Token) (frame : Frame) : Option Turn :=
  match t.lexeme with
  | .symbol .comma => (frame.addItem? e).map .goOn
  | .symbol s =>
    (frame.ending? e t.line).bind fun ending => if s = ending.1 then some ending.2 else none
  | _ => none

lemma Frame.turn?_eq_some {frame : Frame} {e : Expr} {t : Token} {turn : Turn}
    (h : frame.turn? e t = some turn) :
    (∃ frame', frame.addItem? e = some frame' ∧ t.lexeme = .symbol .comma ∧ turn = .goOn frame') ∨
      ∃ s, frame.ending? e t.line = some (s, turn) ∧ t.lexeme = .symbol s := by
  unfold turn? at h
  split at h
  · next ht =>
    obtain ⟨frame', hadd, rfl⟩ := Option.map_eq_some_iff.1 h
    exact .inl ⟨frame', hadd, ht, rfl⟩
  · next s hcomma ht =>
    obtain ⟨⟨symbol, turn'⟩, hending, hsymbol⟩ := Option.bind_eq_some_iff.1 h
    split_ifs at hsymbol with hs
    cases hsymbol
    cases hs
    exact .inr ⟨_, hending, ht⟩
  · cases h

/-- What is left of a construct inside `rest` fits there and is written `ls`. -/
def Turn.Reads (rest : List Frame) (ls : List Lexeme) : Turn → Prop
  | goOn frame =>
    Nested frame.outside rest ∧ frame.Normal ∧ frame.level = 5 ∧ frame.lexemes = ls
  | give mode => mode.Fits rest ∧ mode.lexemes = ls
  | complete s _ => Nested .statement rest ∧ s.Normal ∧ s.endsOpen = false ∧ s.lexemes = ls

section

variable {frame frame' : Frame} {rest : List Frame} {e : Expr}

lemma reads_addItem (hn : Nested .operand (frame :: rest)) (he : e.Normal)
    (h : frame.addItem? e = some frame') :
    (Turn.goOn frame').Reads rest (frame.lexemes ++ (e.lexemes ++ [.symbol .comma])) := by
  obtain ⟨-, hframe, -, hrest⟩ := hn
  cases frame with
  | vector | element | print =>
    cases h
    exact ⟨hrest, ⟨he, hframe⟩, rfl, by simp [Frame.lexemes, followedLexemes_cons]⟩
  | call function line items =>
    cases h
    exact ⟨hrest, ⟨hframe.1, he, hframe.2⟩, rfl, by simp [Frame.lexemes, followedLexemes_cons]⟩
  | _ => cases h

lemma reads_ending {last : Nat} {s : Symbol} {turn : Turn} (hn : Nested .operand (frame :: rest))
    (he : e.Normal) (h : frame.ending? e last = some (s, turn)) :
    turn.Reads rest (frame.lexemes ++ (e.lexemes ++ [.symbol s])) := by
  obtain ⟨-, hframe, -, hrest⟩ := hn
  have hitems {items : List Expr} (h : Expr.NormalAll items) :
      Expr.NormalAll (e :: items).reverse := Expr.NormalAll.reverse ⟨he, h⟩
  cases frame with
  | vector line items =>
    cases h
    refine ⟨⟨hrest, ⟨by simp, hitems hframe⟩, Nat.le_succ 4⟩, ?_⟩
    simp [Frame.lexemes, Mode.lexemes, Expr.lexemes, separated_reverse]
  | element id idLine line isTarget items =>
    cases h
    cases isTarget with
    | true =>
      refine ⟨⟨hrest, trivial, by simp, hitems hframe⟩, ?_⟩
      simp [Frame.lexemes, Mode.lexemes, Expr.lexemes, separated_reverse]
    | false =>
      refine ⟨⟨hrest, ⟨by simp, hitems hframe⟩, Nat.le_succ 4⟩, ?_⟩
      simp [Frame.lexemes, Mode.lexemes, Expr.lexemes, separated_reverse]
  | call function line items =>
    cases h
    refine ⟨⟨hrest, ⟨⟨function, hframe.1, rfl⟩, by simp, hitems hframe.2⟩, Nat.le_succ 4⟩, ?_⟩
    simp [Frame.lexemes, Mode.lexemes, Expr.lexemes, separated_reverse]
  | print line items =>
    cases h
    refine ⟨hrest, ⟨.inl ⟨rfl, by simp⟩, hitems hframe⟩, rfl, ?_⟩
    simp [Frame.lexemes, Stmt.lexemes, separated_reverse]
  | assign target symbol =>
    cases h
    by_cases hsymbol : symbol = .assign
    · rw [if_pos hsymbol]
      refine ⟨hrest, ⟨hframe.1, hframe.2.1, he⟩, rfl, ?_⟩
      simp [Frame.lexemes, Stmt.lexemes, hsymbol]
    · rw [if_neg hsymbol]
      refine ⟨hrest, ⟨⟨symbol, hframe.2.2, hsymbol, rfl⟩, hframe.1, hframe.2.1, he⟩, rfl, ?_⟩
      simp [Frame.lexemes, Stmt.lexemes]
  | result line =>
    cases h
    refine ⟨hrest, ⟨.inr (.inl ⟨rfl, rfl⟩), he, trivial⟩, rfl, ?_⟩
    simp [Frame.lexemes, Stmt.lexemes, Expr.lexemesAll, Lexeme.separated]
  | whileCondition | ifCondition | rangeStart =>
    cases h
    exact ⟨hrest, he, rfl, by simp [Frame.lexemes]⟩
  | _ => cases h

/-- What has been read since the construct was opened is read off from what a token makes of it. -/
lemma reads_turn {t : Token} {turn : Turn} (hn : Nested .operand (frame :: rest)) (he : e.Normal)
    (h : frame.turn? e t = some turn) :
    turn.Reads rest (frame.lexemes ++ (e.lexemes ++ [t.lexeme])) := by
  rcases Frame.turn?_eq_some h with ⟨frame', hadd, ht, rfl⟩ | ⟨s, hending, ht⟩
  · exact ht ▸ reads_addItem hn he hadd
  · exact ht ▸ reads_ending hn he hending

end

/-! ## Complete statements -/

namespace State

lemma follows_finish {st : State} (hb : Stmt.NormalAll st.body) {stack : List Frame}
    (hn : Nested .statement stack) (final : Bool) {s : Stmt} (span : Span) (hs : s.Normal)
    (hopen : final = true ∨ s.endsOpen = false) :
    st.Follows stack s.lexemes (st.finish final s span stack) := by
  induction stack generalizing s span with
  | nil =>
    refine ⟨⟨⟨hs, hb⟩, rfl⟩, ?_⟩
    simp [finish, lexemes, opened, stackLexemes, Mode.lexemes, Stmt.lexemesAll_append,
      Stmt.lexemesAll]
  | cons frame rest ih =>
    have hframe := hn.2.1
    have hrest := hn.2.2.2
    apply Follows.of_frame
    cases frame with
    | whileBody line condition =>
      have h := ih hrest (s := .whileLoop ⟨line, span.last⟩ condition s) ⟨line, span.last⟩ ⟨hframe, hs⟩ hopen
      simpa [finish, Stmt.lexemes, Frame.lexemes] using h
    | forBody line id range =>
      have h := ih hrest (s := .forLoop ⟨line, span.last⟩ id ⟨line, span.last⟩ range s)
        ⟨line, span.last⟩ ⟨hframe, hs⟩ hopen
      simpa [finish, Stmt.lexemes, Frame.lexemes] using h
    | elseBranch line condition yes =>
      have h := ih hrest (s := .ifElse ⟨line, span.last⟩ condition yes s) ⟨line, span.last⟩
        ⟨hframe.1, hframe.2.1, hframe.2.2, hs⟩ hopen
      simpa [finish, Stmt.lexemes, Frame.lexemes] using h
    | thenBranch line condition =>
      rw [finish]
      split
      · next hfinal =>
        have h := ih hrest (s := .ifThen ⟨line, span.last⟩ condition s) ⟨line, span.last⟩
          ⟨hframe, hs⟩ (.inl hfinal)
        simpa [Stmt.lexemes, Frame.lexemes] using h
      · next hfinal =>
        -- An `else` may still follow, so the branch stays open.
        refine ⟨⟨hb, hn, hs, hopen.resolve_left hfinal, line, condition, rest, rfl⟩, ?_⟩
        simp [lexemes, opened, stackLexemes, Mode.lexemes]
    | block line first body =>
      refine ⟨⟨hb, hn.1, ⟨hs, hframe⟩, hn.2.2⟩, ?_⟩
      simp [finish, lexemes, opened, stackLexemes, Mode.lexemes, Frame.lexemes,
        Stmt.lexemesAll_append, Stmt.lexemesAll]
    | _ => cases hn.1

lemma mode_finish_true (st : State) (s : Stmt) (span : Span) (stack : List Frame) :
    (st.finish true s span stack).mode = .statement := by
  induction stack generalizing s span with
  | nil => rfl
  | cons frame rest ih =>
    cases frame with
    | whileBody _ _ | forBody _ _ _ | elseBranch _ _ _ | thenBranch _ _ => exact ih _ _
    | _ => rfl

/-- The state once it is known that no `else` follows. -/
def settle (st : State) : State :=
  match st.mode with
  | .choice yes span => st.finish true yes span st.stack
  | _ => st

lemma script?_eq (st : State) (line : Nat) :
    st.script? line = match st.settle.mode, st.settle.stack with
      | .statement, [] => some (.block ⟨st.settle.first.getD line, line⟩ st.settle.body.reverse)
      | _, _ => none :=
  rfl

variable {st st' : State} {t : Token}

/-- To settle a state keeps the invariant and what has been read. -/
lemma Valid.settle (hv : st.Valid) : st.settle.Valid ∧ st.settle.lexemes = st.lexemes := by
  unfold State.settle
  split
  · next yes span hm =>
    have hfits := hv.mode
    rw [hm] at hfits
    have hf := follows_finish hv.body hfits.1 true span hfits.2.1 (.inl rfl)
    refine ⟨hf.valid, hf.lexemes_eq.trans ?_⟩
    rw [lexemes, hm, Mode.lexemes]
  · exact ⟨hv, rfl⟩

/-! ## One token -/

/-- A token that completes a statement: the statement is written as the construct that was open for
it, with what has been read since. -/
lemma Follows.of_finish {frame : Frame} {rest : List Frame} {ls : List Lexeme} {s : Stmt} {span : Span}
    (h : some (st.finish false s span rest) = some st') (hb : Stmt.NormalAll st.body)
    (hn : Nested .statement rest) (hs : s.Normal) (hopen : s.endsOpen = false)
    (hls : frame.lexemes ++ ls = s.lexemes) : st.Follows (frame :: rest) ls st' := by
  obtain rfl := Option.some.inj h
  apply Follows.of_frame
  rw [hls]
  exact follows_finish hb hn false span hs (.inr hopen)

lemma follows_feedStatement (hb : Stmt.NormalAll st.body) (hn : Nested .statement st.stack)
    (h : st.feedStatement t = some st') : st.Follows st.stack [t.lexeme] st' := by
  unfold feedStatement at h
  split at h
  · next id ht => exact .of_goOn h hb hn (by rw [ht]; rfl)
  · next ht => exact .of_open h hb hn trivial rfl (by rw [ht]; rfl)
  · next ht =>
    -- A closing bracket ends the innermost block.
    split at h
    · next line first body rest hstack =>
      rw [hstack] at hn ⊢
      have hbody : Stmt.NormalAll body.reverse := Stmt.NormalAll.reverse hn.2.1
      refine .of_finish h hb hn.2.2.2 hbody rfl ?_
      simp [Frame.lexemes, Stmt.lexemes, ht]
    · cases h
  · next ht => exact .of_open h hb hn trivial rfl (by rw [ht]; rfl)
  · next ht => exact .of_goOn h hb ⟨hn, .inl rfl⟩ (by rw [ht]; rfl)
  · next ht => exact .of_goOn h hb ⟨hn, .inr rfl⟩ (by rw [ht]; rfl)
  · next ht => exact .of_open h hb hn trivial rfl (by rw [ht]; rfl)
  · next ht => exact .of_goOn h hb ⟨nested_cons hn trivial rfl, .while, rfl⟩ (by rw [ht]; rfl)
  · next ht => exact .of_goOn h hb ⟨nested_cons hn trivial rfl, .if, rfl⟩ (by rw [ht]; rfl)
  · next ht => exact .of_goOn h hb hn (by rw [ht]; rfl)
  · cases h

lemma follows_feedOperand (hb : Stmt.NormalAll st.body) (hn : Nested .operand st.stack)
    (h : st.feedOperand t = some st') : st.Follows st.stack [t.lexeme] st' := by
  have call {k : Keyword} (hk : k.MakesMatrix) (ht : t.lexeme = .keyword k)
      (h : st.goOn st.stack (.opening (.call k t.line [])) = some st') :
      st.Follows st.stack [t.lexeme] st' :=
    .of_goOn h hb ⟨nested_cons hn ⟨hk, trivial⟩ rfl, k, rfl⟩ (by rw [ht]; rfl)
  have constant {value : Constant}
      (h : st.goOn st.stack (.operator (.constant ⟨t.line, t.line⟩ value)) = some st')
      (hv : value.Normal) (ht : value.lexemes = [t.lexeme]) : st.Follows st.stack [t.lexeme] st' :=
    .of_goOn h hb ⟨hn, hv, Nat.le_succ 4⟩ (congrArg _ ht)
  unfold feedOperand at h
  split at h
  · next n ht => exact constant h (Int.natCast_nonneg n) (by rw [ht]; rfl)
  · next x ht => exact constant h trivial (by rw [ht]; rfl)
  · next s ht => exact constant h trivial (by rw [ht]; rfl)
  · next ht => exact constant h trivial (by rw [ht]; rfl)
  · next ht => exact constant h trivial (by rw [ht]; rfl)
  · next ht => exact call (.inl rfl) ht h
  · next ht => exact call (.inr (.inl rfl)) ht h
  · next ht => exact call (.inr (.inr rfl)) ht h
  · next ht =>
    exact .of_goOn h hb ⟨rfl, trivial, floor_le_three st.stack, hn⟩
      (by rw [ht]; exact List.append_nil _)
  · next ht => exact .of_open h hb hn trivial rfl (by rw [ht]; rfl)
  · next id ht => exact .of_goOn h hb hn (by rw [ht]; rfl)
  · cases h

/-- A token that ends an expression only looks at the construct around it, unless that is a range: then
it starts the body of a loop. -/
lemma feedEnd_cons {frame : Frame} (hrange : ∀ line id start, frame ≠ .rangeStop line id start)
    (rest : List Frame) (e : Expr) :
    st.feedEnd (frame :: rest) e t = (frame.turn? e t).map (Turn.after st rest) := by
  cases frame with
  | rangeStop line id start => exact absurd rfl (hrange line id start)
  | _ =>
    simp only [feedEnd, Frame.turn?]
    generalize t.lexeme = l
    cases l with
    | symbol s => cases s <;> rfl
    | _ => rfl

lemma Follows.of_turn {frame : Frame} {rest : List Frame} {ls : List Lexeme} {turn : Turn}
    (hb : Stmt.NormalAll st.body) (h : turn.Reads rest (frame.lexemes ++ ls)) :
    st.Follows (frame :: rest) ls (turn.after st rest) := by
  cases turn with
  | goOn frame' =>
    obtain ⟨hn, hnormal, hlevel, hls⟩ := h
    refine .of_open rfl hb hn hnormal hlevel ?_
    rw [hls, stackLexemes, List.append_assoc]
  | give mode =>
    obtain ⟨hfits, hls⟩ := h
    refine .of_goOn rfl hb hfits ?_
    rw [hls, stackLexemes, List.append_assoc]
  | complete s span =>
    obtain ⟨hn, hs, hopen, hls⟩ := h
    exact .of_finish rfl hb hn hs hopen hls.symm

/-- A token after a complete expression ends it, or goes on to the next item of a list. -/
lemma follows_feedEnd {stack : List Frame} {e : Expr} (hb : Stmt.NormalAll st.body)
    (hn : Nested .operand stack) (he : e.Normal) (h : st.feedEnd stack e t = some st') :
    st.Follows stack (e.lexemes ++ [t.lexeme]) st' := by
  cases stack with
  | nil => cases hn
  | cons frame rest =>
    by_cases hrange : ∃ line id start, frame = .rangeStop line id start
    · -- No token ends a range: the body of the loop starts.
      obtain ⟨line, id, start, rfl⟩ := hrange
      let range : Expr := .range ⟨start.span.first, e.span.last⟩ start e
      have hbody : Nested .statement (.forBody line id range :: rest) :=
        nested_cons hn.2.2.2 ⟨hn.2.1, he⟩ rfl
      have hfin : Follows { st with stack := .forBody line id range :: rest }
          (.forBody line id range :: rest) [t.lexeme] st' := follows_feedStatement hb hbody h
      refine ⟨hfin.valid, hfin.lexemes_eq.trans ?_⟩
      simp [range, opened, stackLexemes, Frame.lexemes, Expr.lexemes]
    · rw [feedEnd_cons (by simpa using hrange)] at h
      obtain ⟨turn, hturn, rfl⟩ := Option.map_eq_some_iff.1 h
      exact .of_turn hb (reads_turn hn he hturn)

lemma follows_feedOperator {e : Expr} (hb : Stmt.NormalAll st.body)
    (hn : Nested .operand st.stack) (he : e.Normal) (hl : 4 ≤ e.level)
    (h : st.feedOperator e t = some st') :
    st.Follows st.stack (e.lexemes ++ [t.lexeme]) st' := by
  have hfloor := floor_le_three st.stack
  have close {k : Nat} (hk : k ≤ 2) : Closes k st.stack e (closeOperators k st.stack e) :=
    closes_closeOperators hk st.stack e hn he (by omega) (by omega)
  by_cases hend : ∀ s, t.lexeme = .symbol s → s ≠ .apostrophe ∧ s.level? = none
  · rw [feedOperator_end hend] at h
    have hc := close (Nat.zero_le 2)
    have hf := follows_feedEnd hb hc.nested hc.normal h
    refine ⟨hf.valid, hf.lexemes_eq.trans ?_⟩
    rw [opened, opened, List.append_assoc, List.append_assoc, ← List.append_assoc (stackLexemes _),
      hc.lexemes_eq, List.append_assoc]
  · push Not at hend
    obtain ⟨s, ht, hs⟩ := hend
    by_cases hap : s = .apostrophe
    · subst hap
      rw [feedOperator_apostrophe ht] at h
      refine .of_goOn h hb ⟨hn, ⟨.inr ⟨rfl, hl⟩, he, trivial⟩, Nat.le_refl 4⟩ ?_
      simp [Mode.lexemes, Expr.lexemes, Expr.lexemesAll, Lexeme.ofOperator,
        Symbol.spelling_ne_negation, ht]
    · obtain ⟨k, hk⟩ := Option.ne_none_iff_exists'.1 (hs hap)
      have hk2 := Symbol.level?_le_two hk
      rw [feedOperator_binary ht hk] at h
      split at h
      · next hf =>
        have hc := close (k := max k 1) (by omega)
        refine .of_goOn h hb ⟨rfl, ⟨hc.normal, k, hk, hc.level_le⟩, ?_, hc.nested⟩ ?_
        · rw [Frame.level_binary hk]
          exact hf
        · rw [stackLexemes, Frame.lexemes, ht, ← List.append_assoc, hc.lexemes_eq]
          simp [Mode.lexemes]
      · cases h

lemma follows_feedTarget {e : Expr} (hb : Stmt.NormalAll st.body)
    (hn : Nested .statement st.stack) (he : e.IsTarget) (hnormal : e.Normal)
    (h : st.feedTarget e t = some st') :
    st.Follows st.stack (e.lexemes ++ [t.lexeme]) st' := by
  unfold feedTarget at h
  split at h
  · next s ht =>
    split at h
    · next hs => exact .of_open h hb hn ⟨he, hnormal, hs⟩ rfl (by rw [ht]; rfl)
    · cases h
  · cases h

/-- One token keeps the invariant and is read. -/
theorem follows_feed (hv : st.Valid) (h : st.feed t = some st') :
    st.Follows st.stack (st.mode.lexemes ++ [t.lexeme]) st' := by
  obtain ⟨hb, hfits⟩ := hv
  unfold feed at h
  cases hm : st.mode with
  | statement =>
    rw [hm] at h hfits
    exact follows_feedStatement hb hfits h
  | operand =>
    rw [hm] at h hfits
    exact follows_feedOperand hb hfits h
  | operator e =>
    rw [hm] at h hfits
    exact follows_feedOperator hb hfits.1 hfits.2.1 hfits.2.2 h
  | word id line isTarget =>
    rw [hm] at h hfits
    dsimp only at h
    split at h
    · next ht =>
      refine .of_open h hb ?_ trivial rfl ?_
      · cases isTarget <;> exact hfits
      · rw [ht]; rfl
    · cases isTarget with
      | true => exact follows_feedTarget (e := .name ⟨line, line⟩ id) hb hfits trivial trivial h
      | false =>
        exact follows_feedOperator (e := .name ⟨line, line⟩ id) hb hfits trivial (Nat.le_succ 4) h
  | target e =>
    rw [hm] at h hfits
    exact follows_feedTarget hb hfits.1 hfits.2.1 hfits.2.2 h
  | opening frame =>
    rw [hm] at h hfits
    dsimp only at h
    split at h
    · next ht =>
      obtain ⟨hn, k, hk⟩ := hfits
      refine .of_goOn h hb hn ?_
      simp [stackLexemes, Mode.lexemes, hk, ht]
    · cases h
  | loopName line =>
    rw [hm] at h hfits
    dsimp only at h
    split at h
    · next id ht => exact .of_goOn h hb hfits (by rw [ht]; rfl)
    · cases h
  | loopAssign line id =>
    rw [hm] at h hfits
    dsimp only at h
    split at h
    · next ht => exact .of_open h hb hfits trivial rfl (by rw [ht]; rfl)
    · cases h
  | jump line keyword =>
    rw [hm] at h hfits
    dsimp only at h
    split at h
    · next ht =>
      obtain rfl := Option.some.inj h
      have hfin := follows_finish hb hfits.1 false (s := .instruction ⟨line, t.line⟩
        keyword.spelling []) ⟨line, t.line⟩ ⟨.inr (.inr ⟨⟨keyword, hfits.2, rfl⟩, rfl⟩), trivial⟩
        (.inr rfl)
      simpa [Stmt.lexemes, Expr.lexemesAll, Lexeme.separated, Mode.lexemes, ht] using hfin
    · cases h
  | choice yes span =>
    rw [hm] at h hfits
    obtain ⟨hn, hyes, hclosed, line, condition, rest, hstack⟩ := hfits
    dsimp only at h
    split at h
    · next line' condition' rest' ht hstack' =>
      rw [hstack'] at hn ⊢
      refine .of_open h hb hn.2.2.2 ⟨hn.2.1, hyes, hclosed⟩ rfl ?_
      simp [stackLexemes, Frame.lexemes, Mode.lexemes, ht]
    · -- The branch is complete, and the token starts something new.
      have hfin := follows_finish hb hn true span hyes (.inl rfl)
      have hmode := mode_finish_true st yes span st.stack
      have hnested := hfin.valid.mode
      rw [hmode] at hnested
      have hf := follows_feedStatement hfin.valid.body hnested h
      have heq := hfin.lexemes_eq
      rw [lexemes, hmode, Mode.lexemes, List.append_nil] at heq
      refine ⟨hf.valid, ?_⟩
      rw [hf.lexemes_eq, heq, List.append_assoc]
      rfl

lemma Valid.feed (hv : st.Valid) (h : st.feed t = some st') :
    st'.Valid ∧ st'.lexemes = st.lexemes ++ [t.lexeme] := by
  have hf := follows_feed hv h
  exact ⟨hf.valid, by rw [hf.lexemes_eq, lexemes, List.append_assoc]⟩

lemma Valid.feedAll {ts : List Token} (hv : st.Valid) (h : st.feedAll ts = .ok st') :
    st'.Valid ∧ st'.lexemes = st.lexemes ++ ts.map Token.lexeme := by
  induction ts generalizing st with
  | nil =>
    cases h
    exact ⟨hv, by simp⟩
  | cons t ts ih =>
    rw [State.feedAll] at h
    split at h
    · cases h
    · next st₁ hfeed =>
      obtain ⟨hv₁, hls₁⟩ := hv.feed hfeed
      obtain ⟨hv', hls'⟩ := ih hv₁ h
      exact ⟨hv', by rw [hls', hls₁]; simp⟩

/-- A state that is a whole script has read it. -/
lemma Valid.script? {line : Nat} {s : Stmt} (hv : st.Valid) (h : st.script? line = some s) :
    s.NormalScript ∧ s.scriptLexemes = st.lexemes := by
  obtain ⟨hsettled, hls⟩ := hv.settle
  rw [script?_eq] at h
  split at h
  · next hm hstack =>
    cases h
    refine ⟨Stmt.NormalAll.reverse hsettled.body, ?_⟩
    rw [← hls, lexemes, opened, hm, hstack]
    simp [Stmt.scriptLexemes, stackLexemes, Mode.lexemes]
  · cases h

end State

/-- A parsed script is in normal form, and its lexemes are those of the tokens. -/
theorem normal_of_script {scan : Token.Scan} {s : Stmt} (h : (ofScan scan).script = .ok s) :
    s.NormalScript ∧ s.scriptLexemes = scan.tokens.map Token.lexeme := by
  have hv : ({} : State).Valid := ⟨trivial, rfl⟩
  unfold ofScan at h
  split at h
  · cases h
  · next st hfeed =>
    obtain ⟨hst, hls⟩ := hv.feedAll hfeed
    dsimp only at h
    split at h
    · cases h
    · cases h
    · split at h
      · next s' hs =>
        cases h
        obtain ⟨hnormal, heq⟩ := hst.script? hs
        exact ⟨hnormal, by rw [heq, hls]; rfl⟩
      · cases h

end Parse
end MatScript
