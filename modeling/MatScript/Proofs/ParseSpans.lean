import MatScript.Proofs.Spans

/-! The parser gives every construct the lines of its tokens. The invariant says on which tokens the
open constructs stand and which of their lines they keep; it holds beside the one for the lexemes. -/
namespace MatScript
namespace Parse

/-! ## Open constructs -/

/-- Items read so far, the last first, each with the comma after it. -/
def followedMembers (items : List Expr) : List Member :=
  items.reverse.flatMap fun e => [.expr e, .symbol .comma]

lemma followedMembers_cons (e : Expr) (items : List Expr) :
    followedMembers (e :: items) = followedMembers items ++ [.expr e] ++ [.symbol .comma] := by
  simp [followedMembers]

lemma membersSeparated_reverse (e : Expr) (items : List Expr) :
    Member.separated (items.reverse ++ [e]) = followedMembers items ++ [.expr e] := by
  rw [Member.separated, List.map_append, List.map_singleton, followedMembers]
  induction items.reverse with
  | nil => rfl
  | cons i is ih =>
    cases is with
    | nil => rfl
    | cons j js => simp_all [List.intercalate]

namespace Frame

/-- The members of an open construct up to the place that it waits at. -/
def members : Frame → List Member
  | negate _ => [.symbol .minus]
  | binary symbol left => [.expr left, .symbol symbol]
  | vector _ items => .symbol .squareLeft :: followedMembers items
  | element id _ _ _ items => .token (.name id) :: .symbol .squareLeft :: followedMembers items
  | call function _ items => .keyword function :: .symbol .roundLeft :: followedMembers items
  | assign target symbol => [.expr target, .symbol symbol]
  | print _ items => .keyword .print :: followedMembers items
  | result _ => [.keyword .return]
  | whileCondition _ => [.keyword .while, .symbol .roundLeft]
  | ifCondition _ => [.keyword .if, .symbol .roundLeft]
  | rangeStart _ id => [.keyword .for, .token (.name id), .symbol .assign]
  | rangeStop _ id start =>
    [.keyword .for, .token (.name id), .symbol .assign, .expr start, .symbol .colon]
  | whileBody _ condition =>
    [.keyword .while, .symbol .roundLeft, .expr condition, .symbol .roundRight]
  | forBody _ id range => [.keyword .for, .token (.name id), .symbol .assign, .expr range]
  | thenBranch _ condition =>
    [.keyword .if, .symbol .roundLeft, .expr condition, .symbol .roundRight]
  | elseBranch _ condition yes =>
    [.keyword .if, .symbol .roundLeft, .expr condition, .symbol .roundRight, .stmt yes,
      .keyword .else]
  | block _ _ body => .symbol .curlyLeft :: body.reverse.map .stmt

/-- The line of the first token. -/
def line : Frame → Nat
  | negate line | vector line _ | call _ line _ | print line _ | result line | whileCondition line
  | ifCondition line | rangeStart line _ | rangeStop line _ _ | whileBody line _ | forBody line _ _
  | thenBranch line _ | elseBranch line _ _ | block line _ _ => line
  | element _ idLine _ _ _ => idLine
  | binary _ left => left.span.first
  | assign target _ => target.span.first

/-- The line of the second token, where it is kept too. -/
def SecondLine : Frame → List Token → Prop
  | element _ _ line _ _, ts => ts.tail.head?.map Token.line = some line
  | block _ first _, ts => ts.tail.head?.map Token.line = first
  | _, _ => True

/-- An open construct stands on the tokens and keeps their lines. -/
structure StandsOn (frame : Frame) (ts : List Token) : Prop where
  members (around : Span) : Member.StandOn around frame.members ts
  line : ts.head?.map Token.line = some frame.line
  second : frame.SecondLine ts

end Frame

/-- Open constructs stand on tokens, the innermost on the last ones. -/
inductive StackStandsOn : List Frame → List Token → Prop
  | nil : StackStandsOn [] []
  | cons {frame : Frame} {stack : List Frame} {ts us : List Token}
    (below : StackStandsOn stack ts) (top : frame.StandsOn us) :
    StackStandsOn (frame :: stack) (ts ++ us)

/-- What has been read since the innermost construct was opened stands on the tokens. -/
def Mode.StandsOn : Mode → List Token → Prop
  | .statement, ts | .operand, ts => ts = []
  | .operator e, ts | .target e, ts => (Part.expr e).StandsOn ts
  | .word id line _, ts => ∃ t : Token, ts = [t] ∧ t.lexeme = .name id ∧ t.line = line
  | .opening frame, ts =>
    ∀ t : Token, t.lexeme = .symbol .roundLeft → frame.StandsOn (ts ++ [t])
  | .loopName line, ts => ∃ t : Token, ts = [t] ∧ t.lexeme = .keyword .for ∧ t.line = line
  | .loopAssign line id, ts =>
    ∃ t u : Token, ts = [t, u] ∧ t.lexeme = .keyword .for ∧ t.line = line ∧ u.lexeme = .name id
  | .jump line keyword, ts => ∃ t : Token, ts = [t] ∧ t.lexeme = .keyword keyword ∧ t.line = line
  | .choice yes span, ts => (Part.stmt yes).StandsOn ts ∧ span.Marks ts

namespace State

/-- The statements and the open constructs of `stack` stand on the tokens. -/
def Opened (st : State) (stack : List Frame) (ts : List Token) : Prop :=
  ∃ us vs, ts = us ++ vs ∧ (∀ around, Member.StandOn around (st.body.reverse.map .stmt) us) ∧
    us.head?.map Token.line = st.first ∧ StackStandsOn stack vs

/-- All that has been read stands on the tokens. -/
def StandsOn (st : State) (ts : List Token) : Prop :=
  ∃ us vs, ts = us ++ vs ∧ st.Opened st.stack us ∧ st.mode.StandsOn vs

end State

/-! ## Complete expressions -/

lemma standsOn_of_members {n : Part} {ps : List Member} {ts : List Token} (heq : n.members = ps)
    (hmembers : Member.StandOn n.span ps ts) (hplaced : n.Placed ts) : n.StandsOn ts :=
  ⟨heq ▸ hmembers, hplaced⟩

lemma marks_of_standsOn {e : Expr} {ts : List Token} (h : (Part.expr e).StandsOn ts) :
    e.span.Marks ts := by
  obtain ⟨-, hplaced⟩ := h
  exact hplaced

lemma standsOn_name {t : Token} {id : String} (ht : t.lexeme = .name id) :
    (Part.expr (.name ⟨t.line, t.line⟩ id)).StandsOn [t] :=
  ⟨.token ht .nil, rfl, rfl⟩

/-- To complete operators moves tokens from the open constructs to the expression. -/
lemma standsOn_closeOperators (level : Nat) {stack : List Frame} {e : Expr} {us vs : List Token}
    (hstack : StackStandsOn stack us) (he : (Part.expr e).StandsOn vs) :
    ∃ us' vs', us ++ vs = us' ++ vs' ∧ StackStandsOn (closeOperators level stack e).2 us' ∧
      (Part.expr (closeOperators level stack e).1).StandsOn vs' := by
  induction stack generalizing e us vs with
  | nil => exact ⟨us, vs, rfl, hstack, he⟩
  | cons frame rest ih =>
    have hmarks := marks_of_standsOn he
    cases hstack with
    | @cons _ _ ts ws below top =>
      have hassoc : ts ++ ws ++ vs = ts ++ (ws ++ vs) := List.append_assoc ts ws vs
      cases frame with
      | negate line =>
        rw [hassoc]
        exact ih below ⟨(top.members _).concat_part he, hmarks.append top.line⟩
      | binary symbol left =>
        rw [closeOperators]
        split
        · rw [hassoc]
          refine ih below
            (standsOn_of_members ?_ ((top.members _).concat_part he) (hmarks.append top.line))
          simp [Part.members, Expr.members, Member.ofOperator, Frame.members]
        · exact ⟨_, _, rfl, .cons below top, he⟩
      | _ => exact ⟨_, _, rfl, .cons below top, he⟩

/-- The indices of an element are a vector of their own. -/
lemma standsOn_element {id : String} {idLine line : Nat} {isTarget : Bool} {items : List Expr}
    {e : Expr} {ts us : List Token} {t : Token}
    (hframe : (Frame.element id idLine line isTarget items).StandsOn ts)
    (he : (Part.expr e).StandsOn us) (ht : t.lexeme = .symbol .squareRight) :
    (Part.expr (.element ⟨idLine, t.line⟩ id ⟨idLine, idLine⟩ (e :: items).reverse
      ⟨line, t.line⟩)).StandsOn (ts ++ (us ++ [t])) := by
  have hmarks : ∀ zs l, zs.head?.map Token.line = some l →
      Span.Marks ⟨l, t.line⟩ (zs ++ (us ++ [t])) := fun zs l hl =>
    (Span.Marks.concat (marks_of_standsOn he).1).append hl
  have hwhole := hmarks ts idLine hframe.line
  obtain ⟨hmembers, hline, hsecond⟩ := hframe
  cases hmembers ⟨line, t.line⟩ with
  | @token _ a _ _ bs hid rest =>
    obtain rfl : a.line = idLine := Option.some.inj hline
    have hindices : (Part.expr (.vector ⟨line, t.line⟩ (e :: items).reverse)).StandsOn
        (bs ++ (us ++ [t])) := by
      refine standsOn_of_members ?_ (rest.append ((Member.StandOn.of_part he).concat ht))
        (hmarks _ line hsecond)
      simp [Part.members, Expr.members, membersSeparated_reverse]
    have hall := fun around : Span =>
      (Member.StandOn.of_part (standsOn_name hid) : Member.StandOn around _ _).concat_part hindices
    exact ⟨hall _, hwhole⟩

/-- A range is complete when the body of the loop starts. -/
lemma standsOn_forBody {line : Nat} {id : String} {start stop : Expr} {ts us : List Token}
    (hframe : (Frame.rangeStop line id start).StandsOn ts) (hstop : (Part.expr stop).StandsOn us) :
    (Frame.forBody line id (.range ⟨start.span.first, stop.span.last⟩ start stop)).StandsOn
      (ts ++ us) := by
  have hstopmarks := marks_of_standsOn hstop
  have hline := (hstopmarks.append hframe.line).1
  refine ⟨fun around => ?_, hline, trivial⟩
  cases hframe.members around with
  | token hfor rest =>
    cases rest with
    | token hid rest =>
      cases rest with
      | token hassign rest =>
        cases rest with
        | @part _ _ vs _ _ hstart rest =>
          cases rest with
          | @token _ c _ _ _ hcolon rest =>
            cases rest
            have hmarks := hstopmarks.append
              (Token.firstLine_append [c] (marks_of_standsOn hstart).1)
            have hrange : (Part.expr (.range ⟨start.span.first, stop.span.last⟩ start stop)).StandsOn
                (vs ++ [c] ++ us) :=
              ⟨((Member.StandOn.of_part hstart).concat hcolon).concat_part hstop, hmarks⟩
            exact .token hfor (.token hid (.token hassign (.of_part hrange)))

/-! ## Ends of expressions -/

/-- What is left of a construct stands on the tokens. -/
def Turn.StandsOn (ts : List Token) : Turn → Prop
  | goOn frame => frame.StandsOn ts
  | give mode => mode.StandsOn ts
  | complete s span => (Part.stmt s).StandsOn ts ∧ span.Marks ts

section

variable {frame frame' : Frame} {e : Expr} {ts us : List Token} {t : Token}

lemma Frame.StandsOn.marks_concat (hframe : frame.StandsOn ts) (he : (Part.expr e).StandsOn us)
    (t : Token) : Span.Marks ⟨frame.line, t.line⟩ (ts ++ (us ++ [t])) :=
  (Span.Marks.concat (marks_of_standsOn he).1).append hframe.line

lemma Frame.StandsOn.members_concat {l : Lexeme} (hframe : frame.StandsOn ts)
    (he : (Part.expr e).StandsOn us) (ht : t.lexeme = l) (around : Span) :
    Member.StandOn around (frame.members ++ ([.expr e] ++ [.token l])) (ts ++ (us ++ [t])) :=
  (hframe.members around).append ((Member.StandOn.of_part he).concat ht)

/-- An open construct goes on behind an expression and a token. -/
lemma Frame.StandsOn.concat {l : Lexeme} (hframe : frame.StandsOn ts)
    (he : (Part.expr e).StandsOn us) (ht : t.lexeme = l)
    (hparts : frame'.members = frame.members ++ ([.expr e] ++ [.token l]))
    (hline : frame'.line = frame.line) (hsecond : frame'.SecondLine (ts ++ (us ++ [t]))) :
    frame'.StandsOn (ts ++ (us ++ [t])) := by
  refine ⟨fun around => ?_, ?_, hsecond⟩
  · rw [hparts]
    exact hframe.members_concat he ht around
  · rw [hline]
    exact (hframe.marks_concat he t).1

lemma standsOn_addItem (hframe : frame.StandsOn ts) (he : (Part.expr e).StandsOn us)
    (h : frame.addItem? e = some frame') (ht : t.lexeme = .symbol .comma) :
    frame'.StandsOn (ts ++ (us ++ [t])) := by
  cases frame with
  | vector | call | print =>
    cases h
    exact hframe.concat he ht (by simp [Frame.members, followedMembers_cons]) rfl trivial
  | element id idLine line isTarget items =>
    cases h
    refine hframe.concat he ht (by simp [Frame.members, followedMembers_cons]) rfl ?_
    cases hframe.members default with
    | token hid rest =>
      cases rest with
      | token hopen rest => exact hframe.second
  | _ => cases h

lemma standsOn_ending {s : Symbol} {turn : Turn} (hframe : frame.StandsOn ts)
    (he : (Part.expr e).StandsOn us) (h : frame.ending? e t.line = some (s, turn))
    (ht : t.lexeme = .symbol s) : turn.StandsOn (ts ++ (us ++ [t])) := by
  have hmarks := hframe.marks_concat he t
  have hmembers := hframe.members_concat he ht
  cases frame with
  | vector | call =>
    cases h
    refine standsOn_of_members ?_ (hmembers _) hmarks
    simp [Part.members, Expr.members, Frame.members, membersSeparated_reverse]
  | element id idLine line isTarget items =>
    cases h
    have hstands := standsOn_element hframe he ht
    cases isTarget <;> exact hstands
  | print line items =>
    cases h
    refine ⟨standsOn_of_members ?_ (hmembers _) hmarks, hmarks⟩
    simp [Part.members, Stmt.members, Frame.members, membersSeparated_reverse]
  | assign target symbol =>
    cases h
    by_cases hsymbol : symbol = .assign
    · rw [if_pos hsymbol]
      refine ⟨standsOn_of_members ?_ (hmembers _) hmarks, hmarks⟩
      simp [Part.members, Stmt.members, Frame.members, hsymbol]
    · rw [if_neg hsymbol]
      refine ⟨standsOn_of_members ?_ (hmembers _) hmarks, hmarks⟩
      simp [Part.members, Stmt.members, Frame.members]
  | result line =>
    cases h
    refine ⟨standsOn_of_members ?_ (hmembers _) hmarks, hmarks⟩
    simp [Part.members, Stmt.members, Frame.members, Member.separated]
  | whileCondition | ifCondition | rangeStart =>
    cases h
    exact hframe.concat he ht rfl rfl trivial
  | _ => cases h

/-- What a token makes of the construct around an expression stands on the tokens of both. -/
lemma standsOn_turn {turn : Turn} (hframe : frame.StandsOn ts) (he : (Part.expr e).StandsOn us)
    (h : frame.turn? e t = some turn) : turn.StandsOn (ts ++ (us ++ [t])) := by
  rcases Frame.turn?_eq_some h with ⟨frame', hadd, ht, rfl⟩ | ⟨s, hending, ht⟩
  · exact standsOn_addItem hframe he hadd ht
  · exact standsOn_ending hframe he hending ht

end

/-! ## Complete statements -/

/-- The line of the first token of two runs. -/
lemma head?_append_line {span : Span} {ts us : List Token} (h : span.Marks us) :
    (ts ++ us).head?.map Token.line = some ((ts.head?.map Token.line).getD span.first) := by
  cases ts with
  | nil => exact h.1
  | cons t ts => rfl

/-- The name in the head of a loop has the span of the loop. -/
lemma standsOn_forLoop {line : Nat} {id : String} {range : Expr} {body : Stmt} {span : Span}
    {ts us : List Token} (hframe : (Frame.forBody line id range).StandsOn ts)
    (hbody : (Part.stmt body).StandsOn us) (hspan : span.Marks us) :
    (Part.stmt (.forLoop ⟨line, span.last⟩ id ⟨line, span.last⟩ range body)).StandsOn (ts ++ us) := by
  have hmarks := hspan.append hframe.line
  cases hframe.members ⟨line, span.last⟩ with
  | token hfor rest =>
    cases rest with
    | token hid rest => exact ⟨.token hfor (.loopName hid (rest.concat_part hbody)), hmarks⟩

/-- A block starts with its first statement. -/
lemma standsOn_block {line : Nat} {first : Option Nat} {body : List Stmt} {ts : List Token} {t : Token}
    (hframe : (Frame.block line first body).StandsOn ts) (ht : t.lexeme = .symbol .curlyRight) :
    (Part.stmt (.block ⟨first.getD t.line, t.line⟩ body.reverse)).StandsOn (ts ++ [t]) := by
  obtain ⟨hmembers, -, hsecond⟩ := hframe
  refine ⟨(hmembers _).concat ht, ?_⟩
  cases hmembers default with
  | token _ rest =>
    refine ⟨(head?_append_line (.single t)).trans ?_, ?_⟩
    · exact congrArg some (congrArg (Option.getD · _) hsecond)
    · rw [List.cons_append, List.tail_cons, List.getLast?_concat]
      rfl

namespace State

variable {st st' : State} {stack : List Frame} {us vs : List Token} {t : Token}

lemma Opened.push {frame : Frame} (h : st.Opened stack us) (hframe : frame.StandsOn vs) :
    st.Opened (frame :: stack) (us ++ vs) := by
  obtain ⟨ts, ws, rfl, hbody, hfirst, hstack⟩ := h
  exact ⟨ts, ws ++ vs, List.append_assoc ts ws vs, hbody, hfirst, .cons hstack hframe⟩

lemma Opened.pop {frame : Frame} (h : st.Opened (frame :: stack) us) :
    ∃ vs ws, us = vs ++ ws ∧ st.Opened stack vs ∧ frame.StandsOn ws := by
  obtain ⟨ts, ws, rfl, hbody, hfirst, hstack⟩ := h
  cases hstack with
  | @cons _ _ xs ys below top =>
    exact ⟨ts ++ xs, ys, (List.append_assoc ts xs ys).symm, ⟨ts, xs, rfl, hbody, hfirst, below⟩, top⟩

/-- A complete statement ends the constructs that end with it. -/
lemma standsOn_finish (hn : Nested .statement stack) (final : Bool) {s : Stmt} {span : Span}
    (ho : st.Opened stack us) (hs : (Part.stmt s).StandsOn vs) (hspan : span.Marks vs) :
    (st.finish final s span stack).StandsOn (us ++ vs) := by
  induction stack generalizing s span us vs with
  | nil =>
    obtain ⟨ts, ws, rfl, hbody, hfirst, hstack⟩ := ho
    cases hstack
    rw [List.append_nil]
    refine ⟨ts ++ vs, [], (List.append_nil _).symm, ⟨ts ++ vs, [], (List.append_nil _).symm,
      fun around => ?_, ?_, .nil⟩, rfl⟩
    · have hall := (hbody around).concat_part hs
      simpa [finish] using hall
    · exact (head?_append_line hspan).trans (congrArg _ (congrArg (Option.getD · _) hfirst))
  | cons frame rest ih =>
    have hrest := hn.2.2.2
    obtain ⟨ts, ws, rfl, hopened, hframe⟩ := ho.pop
    have hassoc : ts ++ ws ++ vs = ts ++ (ws ++ vs) := List.append_assoc ts ws vs
    cases frame with
    | whileBody line condition =>
      rw [hassoc]
      have hmarks := hspan.append hframe.line
      exact ih hrest hopened ⟨(hframe.members _).concat_part hs, hmarks⟩ hmarks
    | forBody line id range =>
      rw [hassoc]
      exact ih hrest hopened (standsOn_forLoop hframe hs hspan) (hspan.append hframe.line)
    | elseBranch line condition yes =>
      rw [hassoc]
      have hmarks := hspan.append hframe.line
      exact ih hrest hopened ⟨(hframe.members _).concat_part hs, hmarks⟩ hmarks
    | thenBranch line condition =>
      rw [finish]
      split
      · rw [hassoc]
        have hmarks := hspan.append hframe.line
        exact ih hrest hopened ⟨(hframe.members _).concat_part hs, hmarks⟩ hmarks
      · exact ⟨_, _, rfl, ho, hs, hspan⟩
    | block line first body =>
      have hstands : (Frame.block line (some (first.getD span.first)) (s :: body)).StandsOn (ws ++ vs) := by
        obtain ⟨hmembers, hline, hsecond⟩ := hframe
        refine ⟨fun around => ?_, ?_, ?_⟩
        · have hall := (hmembers around).concat_part hs
          simpa [Frame.members] using hall
        · exact Token.firstLine_append vs hline
        · cases hmembers default with
          | token ht rest =>
            exact (head?_append_line hspan).trans (congrArg some (congrArg (Option.getD · _) hsecond))
      exact ⟨_, _, (List.append_nil _).symm, hassoc ▸ hopened.push hstands, rfl⟩
    | _ => cases hn.1

/-- To settle a state keeps what it stands on. -/
lemma standsOn_settle {ts : List Token} (hv : st.Valid) (h : st.StandsOn ts) :
    st.settle.StandsOn ts := by
  obtain ⟨us, vs, rfl, ho, hm⟩ := h
  unfold settle
  split
  · next yes span hmode =>
    have hfits := hv.mode
    rw [hmode] at hfits hm
    exact standsOn_finish hfits.1 true ho hm.1 hm.2
  · exact ⟨us, vs, rfl, ho, hm⟩

/-! ## One token -/

lemma standsOn_goOn {stack' : List Frame} {mode : Mode} (h : st.goOn stack' mode = some st')
    (ho : st.Opened stack' us) (hm : mode.StandsOn vs) : st'.StandsOn (us ++ vs) := by
  obtain rfl := Option.some.inj h
  exact ⟨us, vs, rfl, ho, hm⟩

/-- A construct is opened, or goes on. -/
lemma standsOn_open {frame : Frame} {mode : Mode} (h : st.goOn (frame :: stack) mode = some st')
    (ho : st.Opened stack us) (hframe : frame.StandsOn vs) (hm : mode.StandsOn []) :
    st'.StandsOn (us ++ vs) := by
  have hs := standsOn_goOn h (ho.push hframe) hm
  rwa [List.append_nil] at hs

lemma standsOn_feedStatement (hn : Nested .statement st.stack) (ho : st.Opened st.stack us)
    (h : st.feedStatement t = some st') : st'.StandsOn (us ++ [t]) := by
  unfold feedStatement at h
  split at h
  · next id ht => exact standsOn_goOn h ho ⟨t, rfl, ht, rfl⟩
  · next ht => exact standsOn_open h ho ⟨fun _ => .token ht .nil, rfl, rfl⟩ rfl
  · next ht =>
    split at h
    · next line first body rest hstack =>
      rw [hstack] at hn ho
      obtain rfl := Option.some.inj h
      obtain ⟨vs, ws, rfl, hopened, hframe⟩ := ho.pop
      rw [List.append_assoc]
      exact standsOn_finish hn.2.2.2 false hopened (standsOn_block hframe ht) (.concat hframe.line)
    · cases h
  · next ht => exact standsOn_open h ho ⟨fun _ => .token ht .nil, rfl, trivial⟩ rfl
  · next ht => exact standsOn_goOn h ho ⟨t, rfl, ht, rfl⟩
  · next ht => exact standsOn_goOn h ho ⟨t, rfl, ht, rfl⟩
  · next ht => exact standsOn_open h ho ⟨fun _ => .token ht .nil, rfl, trivial⟩ rfl
  · next ht =>
    exact standsOn_goOn h ho fun u hu => ⟨fun _ => .token ht (.token hu .nil), rfl, trivial⟩
  · next ht =>
    exact standsOn_goOn h ho fun u hu => ⟨fun _ => .token ht (.token hu .nil), rfl, trivial⟩
  · next ht => exact standsOn_goOn h ho ⟨t, rfl, ht, rfl⟩
  · cases h

lemma standsOn_feedOperand (ho : st.Opened st.stack us) (h : st.feedOperand t = some st') :
    st'.StandsOn (us ++ [t]) := by
  have constant {value : Constant} (ht : value.lexemes = [t.lexeme])
      (h : st.goOn st.stack (.operator (.constant ⟨t.line, t.line⟩ value)) = some st') :
      st'.StandsOn (us ++ [t]) := by
    have hmembers : (Part.expr (.constant ⟨t.line, t.line⟩ value)).members = [.token t.lexeme] := by
      simp [Part.members, Expr.members, ht]
    exact standsOn_goOn h ho (standsOn_of_members hmembers (.token rfl .nil) (.single t))
  have call {k : Keyword} (ht : t.lexeme = .keyword k)
      (h : st.goOn st.stack (.opening (.call k t.line [])) = some st') :
      st'.StandsOn (us ++ [t]) :=
    standsOn_goOn h ho fun u hu => ⟨fun _ => .token ht (.token hu .nil), rfl, trivial⟩
  unfold feedOperand at h
  split at h
  · next n ht => exact constant (by rw [ht]; rfl) h
  · next x ht => exact constant (by rw [ht]; rfl) h
  · next s ht => exact constant (by rw [ht]; rfl) h
  · next ht => exact constant (by rw [ht]; rfl) h
  · next ht => exact constant (by rw [ht]; rfl) h
  · next ht => exact call ht h
  · next ht => exact call ht h
  · next ht => exact call ht h
  · next ht => exact standsOn_open h ho ⟨fun _ => .token ht .nil, rfl, trivial⟩ rfl
  · next ht => exact standsOn_open h ho ⟨fun _ => .token ht .nil, rfl, trivial⟩ rfl
  · next id ht => exact standsOn_goOn h ho ⟨t, rfl, ht, rfl⟩
  · cases h

lemma standsOn_after {turn : Turn} {ls : List Lexeme} (hreads : turn.Reads stack ls)
    (ho : st.Opened stack us) (h : turn.StandsOn vs) : (turn.after st stack).StandsOn (us ++ vs) := by
  cases turn with
  | goOn frame => exact standsOn_open rfl ho h (by cases frame.inside <;> rfl)
  | give mode => exact standsOn_goOn rfl ho h
  | complete s span => exact standsOn_finish hreads.1 false ho h.1 h.2

/-- A token after a complete expression ends it, or goes on to the next item of a list. -/
lemma standsOn_feedEnd {e : Expr} (hn : Nested .operand stack) (ho : st.Opened stack us)
    (he : (Part.expr e).StandsOn vs) (hnormal : e.Normal) (h : st.feedEnd stack e t = some st') :
    st'.StandsOn (us ++ (vs ++ [t])) := by
  cases stack with
  | nil => cases hn
  | cons frame rest =>
    obtain ⟨xs, ys, rfl, hopened, hframe⟩ := ho.pop
    rw [List.append_assoc]
    by_cases hrange : ∃ line id start, frame = .rangeStop line id start
    · -- No token ends a range: the body of the loop starts.
      obtain ⟨line, id, start, rfl⟩ := hrange
      have hbody : Nested .statement
          (.forBody line id (.range ⟨start.span.first, e.span.last⟩ start e) :: rest) :=
        nested_cons hn.2.2.2 ⟨hn.2.1, hnormal⟩ rfl
      have hs := standsOn_feedStatement hbody (hopened.push (standsOn_forBody hframe he)) h
      simpa only [List.append_assoc] using hs
    · rw [feedEnd_cons (by simpa using hrange)] at h
      obtain ⟨turn, hturn, rfl⟩ := Option.map_eq_some_iff.1 h
      exact standsOn_after (reads_turn hn hnormal hturn) hopened (standsOn_turn hframe he hturn)

lemma standsOn_feedOperator {e : Expr} (hn : Nested .operand st.stack)
    (ho : st.Opened st.stack us) (he : (Part.expr e).StandsOn vs) (hnormal : e.Normal)
    (hl : 4 ≤ e.level) (h : st.feedOperator e t = some st') : st'.StandsOn (us ++ (vs ++ [t])) := by
  have hfloor := floor_le_three st.stack
  have close {k : Nat} (hk : k ≤ 2) : Closes k st.stack e (closeOperators k st.stack e) :=
    closes_closeOperators hk st.stack e hn hnormal (by omega) (by omega)
  -- the tokens of the open constructs and of the expression, divided anew
  have divide (k : Nat) : ∃ us' vs', us ++ vs = us' ++ vs' ∧
      st.Opened (closeOperators k st.stack e).2 us' ∧
      (Part.expr (closeOperators k st.stack e).1).StandsOn vs' := by
    obtain ⟨bs, fs, rfl, hbody, hfirst, hstack⟩ := ho
    obtain ⟨fs', vs', hsplit, hstack', he'⟩ := standsOn_closeOperators k hstack he
    refine ⟨bs ++ fs', vs', ?_, ⟨bs, fs', rfl, hbody, hfirst, hstack'⟩, he'⟩
    rw [List.append_assoc, hsplit, List.append_assoc]
  by_cases hend : ∀ s, t.lexeme = .symbol s → s ≠ .apostrophe ∧ s.level? = none
  · rw [feedOperator_end hend] at h
    have hc := close (Nat.zero_le 2)
    obtain ⟨us', vs', hsplit, ho', he'⟩ := divide 0
    rw [← List.append_assoc, hsplit, List.append_assoc]
    exact standsOn_feedEnd hc.nested ho' he' hc.normal h
  · push Not at hend
    obtain ⟨s, ht, hs⟩ := hend
    by_cases hap : s = .apostrophe
    · subst hap
      rw [feedOperator_apostrophe ht] at h
      refine standsOn_goOn h ho (standsOn_of_members ?_ ((Member.StandOn.of_part he).concat ht)
        (.concat (marks_of_standsOn he).1))
      simp [Part.members, Expr.members, Member.ofOperator, Symbol.spelling_ne_negation]
    · obtain ⟨k, hk⟩ := Option.ne_none_iff_exists'.1 (hs hap)
      rw [feedOperator_binary ht hk] at h
      split at h
      · obtain ⟨us', vs', hsplit, ho', he'⟩ := divide (max k 1)
        rw [← List.append_assoc, hsplit, List.append_assoc]
        refine standsOn_open h ho' ⟨fun _ => (Member.StandOn.of_part he').concat ht, ?_, trivial⟩ rfl
        exact Token.firstLine_append [t] (marks_of_standsOn he').1
      · cases h

lemma standsOn_feedTarget {e : Expr} (ho : st.Opened st.stack us)
    (he : (Part.expr e).StandsOn vs) (h : st.feedTarget e t = some st') :
    st'.StandsOn (us ++ (vs ++ [t])) := by
  unfold feedTarget at h
  split at h
  · next s ht =>
    split at h
    · refine standsOn_open h ho ⟨fun _ => (Member.StandOn.of_part he).concat ht, ?_, trivial⟩ rfl
      exact Token.firstLine_append [t] (marks_of_standsOn he).1
    · cases h
  · cases h

/-- One more token is read. -/
theorem standsOn_feed {ts : List Token} (hv : st.Valid) (hst : st.StandsOn ts)
    (h : st.feed t = some st') : st'.StandsOn (ts ++ [t]) := by
  have hfits := hv.mode
  obtain ⟨us, vs, rfl, ho, hm⟩ := hst
  rw [List.append_assoc]
  unfold feed at h
  cases hmode : st.mode with
  | statement =>
    rw [hmode] at h hfits hm
    cases hm
    exact standsOn_feedStatement hfits ho h
  | operand =>
    rw [hmode] at h hfits hm
    cases hm
    exact standsOn_feedOperand ho h
  | operator e =>
    rw [hmode] at h hfits hm
    exact standsOn_feedOperator hfits.1 ho hm hfits.2.1 hfits.2.2 h
  | word id line isTarget =>
    rw [hmode] at h hfits hm
    obtain ⟨u, rfl, hu, rfl⟩ := hm
    dsimp only at h
    split at h
    · next ht =>
      exact standsOn_open h ho ⟨fun _ => .token hu (.token ht .nil), rfl, rfl⟩ rfl
    · cases isTarget with
      | true => exact standsOn_feedTarget ho (standsOn_name hu) h
      | false => exact standsOn_feedOperator hfits ho (standsOn_name hu) trivial (Nat.le_succ 4) h
  | target e =>
    rw [hmode] at h hm
    exact standsOn_feedTarget ho hm h
  | opening frame =>
    rw [hmode] at h hm
    dsimp only at h
    split at h
    · next ht => exact standsOn_open h ho (hm t ht) rfl
    · cases h
  | loopName line =>
    rw [hmode] at h hm
    obtain ⟨u, rfl, hu, rfl⟩ := hm
    dsimp only at h
    split at h
    · next id ht => exact standsOn_goOn h ho ⟨u, t, rfl, hu, rfl, ht⟩
    · cases h
  | loopAssign line id =>
    rw [hmode] at h hm
    obtain ⟨u, w, rfl, hu, rfl, hw⟩ := hm
    dsimp only at h
    split at h
    · next ht =>
      exact standsOn_open h ho ⟨fun _ => .token hu (.token hw (.token ht .nil)), rfl, trivial⟩ rfl
    · cases h
  | jump line keyword =>
    rw [hmode] at h hfits hm
    obtain ⟨u, rfl, hu, rfl⟩ := hm
    dsimp only at h
    split at h
    · next ht =>
      have hmarks : Span.Marks ⟨u.line, t.line⟩ [u, t] := ⟨rfl, rfl⟩
      obtain rfl := Option.some.inj h
      refine standsOn_finish hfits.1 false ho (standsOn_of_members ?_ (.token hu (.token ht .nil)) hmarks)
        hmarks
      simp [Part.members, Stmt.members, Member.separated]
    · cases h
  | choice yes span =>
    rw [hmode] at h hfits hm
    dsimp only at h
    split at h
    · next line' condition' rest' ht hstack' =>
      rw [hstack'] at ho
      obtain ⟨xs, ys, rfl, hopened, hframe⟩ := ho.pop
      rw [List.append_assoc]
      refine standsOn_open h hopened ⟨fun around => ?_, Token.firstLine_append _ hframe.line, trivial⟩ rfl
      exact (hframe.members around).append ((Member.StandOn.of_part hm.1).concat ht)
    · -- The branch is complete, and the token starts something new.
      have hfin := follows_finish hv.body hfits.1 true span hfits.2.1 (.inl rfl)
      have hdone := mode_finish_true st yes span st.stack
      have hnested := hfin.valid.mode
      rw [hdone] at hnested
      obtain ⟨us', vs', hsplit, ho', hm'⟩ := standsOn_finish hfits.1 true ho hm.1 hm.2
      rw [hdone] at hm'
      cases hm'
      rw [← List.append_assoc, hsplit, List.append_nil]
      exact standsOn_feedStatement hnested ho' h

lemma standsOn_feedAll {ts us : List Token} (hv : st.Valid) (hst : st.StandsOn ts)
    (h : st.feedAll us = .ok st') : st'.StandsOn (ts ++ us) := by
  induction us generalizing st ts with
  | nil =>
    cases h
    rwa [List.append_nil]
  | cons u us ih =>
    rw [State.feedAll] at h
    split at h
    · cases h
    · next st₁ hfeed =>
      rw [List.append_cons]
      exact ih (hv.feed hfeed).1 (standsOn_feed hv hst hfeed) h

end State

/-- A parsed script stands on the tokens of the scan. -/
theorem standsOn_of_script {scan : Token.Scan} {s : Stmt} (h : (ofScan scan).script = .ok s) :
    s.StandsOnScan scan := by
  have hv : ({} : State).Valid := ⟨trivial, rfl⟩
  have hempty : ({} : State).StandsOn [] :=
    ⟨[], [], rfl, ⟨[], [], rfl, fun _ => .nil, rfl, .nil⟩, rfl⟩
  unfold ofScan at h
  split at h
  · cases h
  · next st hfeed =>
    have hst := State.standsOn_settle (hv.feedAll hfeed).1 (State.standsOn_feedAll hv hempty hfeed)
    dsimp only at h
    split at h
    · cases h
    · cases h
    · split at h
      · next s' hs =>
        cases h
        rw [State.script?_eq] at hs
        split at hs
        · next hm hstack =>
          cases hs
          obtain ⟨us, vs, hts, ⟨bs, fs, rfl, hbody, hfirst, hopen⟩, hmode⟩ := hst
          rw [hm] at hmode
          rw [hstack] at hopen
          cases hmode
          cases hopen
          rw [List.nil_append, List.append_nil, List.append_nil] at hts
          refine ⟨_, _, rfl, ?_, ?_⟩
          · rw [hts]
            exact hbody _
          · rw [hts, hfirst]
        · cases hs
      · cases h

end Parse

/-- Every construct of a parsed script has the lines of the first and the last of its tokens as its
span, and lies within the construct around it. -/
theorem Script.spans_exact_and_nested {line : Nat} {text : String} {s : Stmt}
    (h : (Script.parse line text).script = .ok s) :
    s.StandsOnScan (Token.scan line text) ∧ (Part.stmt s).Nested := by
  have hstands := Parse.standsOn_of_script h
  obtain ⟨horder, -, hlines⟩ := Token.scanFrom_inOrder ⟨line, 1, 0⟩ text.toList
  exact ⟨hstands, hstands.nested horder fun t ht => (hlines t ht).2⟩

def severalLinesText : String :=
  "for i = 1 :\n  n[2,\n    3] \x7b\n\n  x = [i,\n    -i]';\n\x7d\nif (true) \x7b\n\x7d else print \"a\nb\";\n"

def severalLinesScript : Stmt :=
  .block ⟨1, 10⟩ [
    .forLoop ⟨1, 7⟩ "i" ⟨1, 7⟩
      (.range ⟨1, 3⟩ (.constant ⟨1, 1⟩ (.int 1))
        (.element ⟨2, 3⟩ "n" ⟨2, 2⟩ [.constant ⟨2, 2⟩ (.int 2), .constant ⟨3, 3⟩ (.int 3)] ⟨2, 3⟩))
      (.block ⟨5, 7⟩ [
        .assign ⟨5, 6⟩ (.name ⟨5, 5⟩ "x") (.operator ⟨5, 6⟩ "'" [
          .vector ⟨5, 6⟩ [.name ⟨5, 5⟩ "i", .operator ⟨6, 6⟩ "u-" [.name ⟨6, 6⟩ "i"]]])]),
    .ifElse ⟨8, 9⟩ (.constant ⟨8, 8⟩ (.bool true)) (.block ⟨9, 9⟩ [])
      (.instruction ⟨9, 9⟩ "print" [.constant ⟨9, 9⟩ (.text "a\nb")])]

theorem spans_severalLinesText :
    (Script.parse 1 severalLinesText).script = .ok severalLinesScript ∧
    severalLinesScript.StandsOnScan (Token.scan 1 severalLinesText) ∧
    (Part.stmt severalLinesScript).Nested := by
  have hp : (Script.parse 1 severalLinesText).script = .ok severalLinesScript := by
    set_option maxRecDepth 4000 in cbv
  exact ⟨hp, Script.spans_exact_and_nested hp⟩

end MatScript
