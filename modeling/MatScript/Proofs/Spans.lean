import MatScript.Proofs.Evaluation
import MatScript.Proofs.ParseSound
import MatScript.Proofs.Rendering

/-! Where the members of a script stand. Every construct stands on a run of tokens and has the lines
of the first and the last of them as its span. Two constructs differ: the span of a block leaves
the opening bracket out, and the name in the head of a loop has the span of the loop. The parser
keeps the lines as an invariant of its open constructs, and spans are nested since the lines of
tokens never go back. -/
namespace MatScript

/-! ## Constructs and the tokens that they stand on -/

def Part.span : Part → Span
  | expr e => e.span
  | stmt s => s.span

/-- A part of a construct as it is written: a token, a smaller construct or the name in the head of
a loop. -/
inductive Member where
  | token (l : Lexeme)
  | part (p : Part)
  | loopName (span : Span) (id : String)

namespace Member

abbrev symbol (s : Symbol) : Member := token (.symbol s)

abbrev keyword (k : Keyword) : Member := token (.keyword k)

abbrev expr (e : Expr) : Member := part (.expr e)

abbrev stmt (s : Stmt) : Member := part (.stmt s)

/-- The construct that a member is. -/
def part? : Member → Option Part
  | token _ => none
  | part p => some p
  | loopName span id => some (.expr (.name span id))

/-- Expressions with commas between them. -/
def separated (es : List Expr) : List Member := [symbol .comma].intercalate (es.map fun e => [expr e])

/-- An operator with its operands. -/
def ofOperator (name : String) : List Expr → List Member
  | [e] =>
    if name = "u-" then [symbol .minus, expr e] else expr e :: (Lexeme.ofSymbol name).map token
  | [left, right] => expr left :: (Lexeme.ofSymbol name).map token ++ [expr right]
  | _ => []

end Member

/-- The members of an expression from left to right. -/
def Expr.members : Expr → List Member
  | .constant _ value => value.lexemes.map .token
  | .vector _ items => .symbol .squareLeft :: Member.separated items ++ [.symbol .squareRight]
  | .range _ start stop => [.expr start, .symbol .colon, .expr stop]
  | .operator _ symbol operands => Member.ofOperator symbol operands
  | .call _ function arguments =>
    (Lexeme.ofWordName function).map .token ++ .symbol .roundLeft :: Member.separated arguments ++
      [.symbol .roundRight]
  | .name _ id => [.token (.name id)]
  | .element _ id idSpan indices indexSpan =>
    [.expr (.name idSpan id), .expr (.vector indexSpan indices)]
  | .gap _ _ => []

/-- The members of a statement from left to right. -/
def Stmt.members : Stmt → List Member
  | .block _ body => .symbol .curlyLeft :: body.map .stmt ++ [.symbol .curlyRight]
  | .assign _ target value =>
    [.expr target, .symbol .assign, .expr value, .symbol .semicolon]
  | .update _ symbol target value =>
    .expr target :: (Lexeme.ofSymbol symbol).map .token ++ [.expr value, .symbol .semicolon]
  | .instruction _ name arguments =>
    (Lexeme.ofWordName name).map .token ++ Member.separated arguments ++ [.symbol .semicolon]
  | .whileLoop _ condition body =>
    [.keyword .while, .symbol .roundLeft, .expr condition, .symbol .roundRight, .stmt body]
  | .forLoop _ id idSpan range body =>
    [.keyword .for, .loopName idSpan id, .symbol .assign, .expr range, .stmt body]
  | .ifThen _ condition yes =>
    [.keyword .if, .symbol .roundLeft, .expr condition, .symbol .roundRight, .stmt yes]
  | .ifElse _ condition yes no =>
    [.keyword .if, .symbol .roundLeft, .expr condition, .symbol .roundRight, .stmt yes,
      .keyword .else, .stmt no]
  | .expr e => [.expr e]

/-- The span goes from the line of the first token to the line of the last. -/
def Span.Marks (span : Span) (ts : List Token) : Prop :=
  ts.head?.map Token.line = some span.first ∧ ts.getLast?.map Token.line = some span.last

/-- A span that lies within another. -/
def Span.Within (inner outer : Span) : Prop := outer.first ≤ inner.first ∧ inner.last ≤ outer.last

namespace Part

def members : Part → List Member
  | expr e => e.members
  | stmt s => s.members

/-- The constructs that a construct is made of. -/
def inner (n : Part) : List Part := n.members.filterMap Member.part?

/-- The span of a construct on these tokens. That of a block starts behind the bracket: with its
first statement, or with the closing bracket. -/
def Placed : Part → List Token → Prop
  | stmt (.block span _), ts => span.Marks ts.tail
  | n, ts => n.span.Marks ts

/-- The constructs in a construct, itself included. -/
inductive Has : Part → Part → Prop
  | self (n : Part) : n.Has n
  | child {n c m : Part} (hc : c ∈ n.inner) (h : c.Has m) : n.Has m

/-- No span ends before it starts, and every construct lies within the one around it. -/
def Nested (n : Part) : Prop :=
  ∀ m, n.Has m → m.span.first ≤ m.span.last ∧ ∀ c ∈ m.inner, c.span.Within m.span

end Part

mutual

/-- A construct stands on the tokens with all its members, each at its place. -/
inductive Part.StandsOn : Part → List Token → Prop
  | intro {n : Part} {ts : List Token} (members : Member.StandOn n.span n.members ts)
    (placed : n.Placed ts) : Part.StandsOn n ts

/-- Parts stand on tokens, one behind the other, in a construct with the span `around`. That span
is also the one of a name in the head of a loop. -/
inductive Member.StandOn : Span → List Member → List Token → Prop
  | nil {around : Span} : Member.StandOn around [] []
  | token {around : Span} {t : Token} {l : Lexeme} {ps : List Member} {ts : List Token}
    (ht : t.lexeme = l) (rest : Member.StandOn around ps ts) :
    Member.StandOn around (.token l :: ps) (t :: ts)
  | part {around : Span} {n : Part} {us : List Token} {ps : List Member} {ts : List Token}
    (first : n.StandsOn us) (rest : Member.StandOn around ps ts) :
    Member.StandOn around (.part n :: ps) (us ++ ts)
  | loopName {around : Span} {t : Token} {id : String} {ps : List Member} {ts : List Token}
    (ht : t.lexeme = .name id) (rest : Member.StandOn around ps ts) :
    Member.StandOn around (.loopName around id :: ps) (t :: ts)

end

/-- A whole script: statements without brackets, up to the line that reading has reached. -/
def Stmt.StandsOnScan (s : Stmt) (scan : Token.Scan) : Prop :=
  ∃ span body, s = .block span body ∧ Member.StandOn span (body.map .stmt) scan.tokens ∧
    span = ⟨(scan.tokens.head?.map Token.line).getD scan.line, scan.line⟩

/-! ## Lines that never go back -/

/-- Every token is on the line of the one before it, or further down. -/
def Token.InOrder (ts : List Token) : Prop := ts.Pairwise fun t u => t.line ≤ u.line

lemma Token.firstLine_append {ts : List Token} {line : Nat} (us : List Token)
    (h : ts.head?.map Token.line = some line) : (ts ++ us).head?.map Token.line = some line := by
  obtain ⟨t, ht, rfl⟩ := Option.map_eq_some_iff.1 h
  rw [List.head?_append, ht]
  rfl

namespace Span.Marks

variable {span : Span} {ts : List Token}

lemma exists_first (h : span.Marks ts) : ∃ t rest, ts = t :: rest ∧ t.line = span.first := by
  cases ts with
  | nil => cases h.1
  | cons t rest => exact ⟨t, rest, rfl, Option.some.inj h.1⟩

lemma exists_last (h : span.Marks ts) : ∃ t front, ts = front ++ [t] ∧ t.line = span.last := by
  obtain ⟨t, ht, hline⟩ := Option.map_eq_some_iff.1 h.2
  obtain ⟨front, rfl⟩ := List.getLast?_eq_some_iff.1 ht
  exact ⟨t, front, rfl, hline⟩

lemma bounds (h : span.Marks ts) (ho : Token.InOrder ts) :
    ∀ t ∈ ts, span.first ≤ t.line ∧ t.line ≤ span.last := by
  intro t ht
  constructor
  · obtain ⟨u, rest, rfl, hu⟩ := h.exists_first
    rw [← hu]
    rcases List.mem_cons.1 ht with rfl | ht
    · exact Nat.le_refl _
    · exact List.rel_of_pairwise_cons ho ht
  · obtain ⟨u, front, rfl, hu⟩ := h.exists_last
    rw [← hu]
    rcases List.mem_append.1 ht with ht | ht
    · exact (List.pairwise_append.1 ho).2.2 t ht u (List.mem_singleton_self u)
    · rw [List.mem_singleton.1 ht]

/-- Lines that bound all tokens bound the span. -/
lemma within {outer : Span} (h : span.Marks ts)
    (hts : ∀ t ∈ ts, outer.first ≤ t.line ∧ t.line ≤ outer.last) : span.Within outer := by
  obtain ⟨t, rest, rfl, ht⟩ := h.exists_first
  obtain ⟨u, front, hu, hline⟩ := h.exists_last
  refine ⟨ht ▸ (hts t List.mem_cons_self).1, hline ▸ (hts u ?_).2⟩
  rw [hu]
  exact List.mem_append_right front (List.mem_singleton_self u)

lemma first_le_last (h : span.Marks ts) (ho : Token.InOrder ts) : span.first ≤ span.last := by
  obtain ⟨t, rest, rfl, ht⟩ := h.exists_first
  rw [← ht]
  exact (h.bounds ho t List.mem_cons_self).2

lemma append {line : Nat} {us : List Token} (h : span.Marks ts)
    (hline : us.head?.map Token.line = some line) : Span.Marks ⟨line, span.last⟩ (us ++ ts) := by
  obtain ⟨t, front, rfl, ht⟩ := h.exists_last
  refine ⟨Token.firstLine_append _ hline, ?_⟩
  rw [← List.append_assoc, List.getLast?_concat]
  exact congrArg some ht

lemma single (t : Token) : Span.Marks ⟨t.line, t.line⟩ [t] := ⟨rfl, rfl⟩

lemma concat {line : Nat} {t : Token} (hline : ts.head?.map Token.line = some line) :
    Span.Marks ⟨line, t.line⟩ (ts ++ [t]) :=
  (single t).append hline

end Span.Marks

namespace Member.StandOn

variable {around : Span} {ps qs : List Member} {ts us : List Token}

lemma append (hp : StandOn around ps ts) (hq : StandOn around qs us) :
    StandOn around (ps ++ qs) (ts ++ us) := by
  induction ps generalizing ts with
  | nil =>
    cases hp
    exact hq
  | cons p ps ih =>
    cases hp with
    | token ht rest => exact .token ht (ih rest)
    | loopName ht rest => exact .loopName ht (ih rest)
    | part first rest =>
      rw [List.append_assoc]
      exact .part first (ih rest)

lemma of_part {n : Part} (h : n.StandsOn ts) : StandOn around [.part n] ts := by
  have hn : StandOn around [.part n] (ts ++ []) := .part h .nil
  rwa [List.append_nil] at hn

lemma concat {t : Token} {l : Lexeme} (hp : StandOn around ps ts) (ht : t.lexeme = l) :
    StandOn around (ps ++ [.token l]) (ts ++ [t]) :=
  hp.append (.token ht .nil)

lemma concat_part {n : Part} (hp : StandOn around ps ts) (h : n.StandsOn us) :
    StandOn around (ps ++ [.part n]) (ts ++ us) :=
  hp.append (of_part h)

/-- Every construct among the members stands on tokens of its own, unless it is the name in the head
of a loop. -/
lemma exists_run {n : Part} (h : StandOn around ps ts) (hn : n ∈ ps.filterMap Member.part?) :
    (∃ run, run.Sublist ts ∧ n.StandsOn run) ∨ ∃ id, n = .expr (.name around id) := by
  induction ps generalizing ts with
  | nil => cases hn
  | cons p ps ih =>
    cases h with
    | token ht rest => exact (ih rest hn).imp_left fun ⟨run, hrun, hs⟩ => ⟨run, hrun.cons _, hs⟩
    | loopName ht rest =>
      rcases List.mem_cons.1 hn with rfl | hn
      · exact .inr ⟨_, rfl⟩
      · exact (ih rest hn).imp_left fun ⟨run, hrun, hs⟩ => ⟨run, hrun.cons _, hs⟩
    | @part _ m us _ _ first rest =>
      rcases List.mem_cons.1 hn with rfl | hn
      · exact .inl ⟨us, List.sublist_append_left us _, first⟩
      · exact (ih rest hn).imp_left fun ⟨run, hrun, hs⟩ =>
          ⟨run, hrun.trans (List.sublist_append_right us _), hs⟩

end Member.StandOn

/-! ## Nested spans -/

namespace Part

variable {n c : Part} {ts : List Token}

/-- The tokens that a span counts: a block leaves the first one out. -/
lemma StandsOn.exists_marks (h : n.StandsOn ts) :
    ∃ us, us.Sublist ts ∧ n.span.Marks us ∧
      ∀ c ∈ n.inner, (∃ run, run.Sublist us ∧ c.StandsOn run) ∨ ∃ id, c = .expr (.name n.span id) := by
  obtain ⟨hmembers, hplaced⟩ := h
  cases n with
  | expr e => exact ⟨ts, .refl ts, hplaced, fun c hc => hmembers.exists_run hc⟩
  | stmt s =>
    cases s with
    | block span body =>
      cases hmembers with
      | token ht rest => exact ⟨_, List.sublist_cons_self _ _, hplaced, fun c hc => rest.exists_run hc⟩
    | _ => exact ⟨ts, .refl ts, hplaced, fun c hc => hmembers.exists_run hc⟩

/-- A construct lies between lines that bound its tokens. -/
lemma StandsOn.within (h : n.StandsOn ts) {outer : Span}
    (hts : ∀ t ∈ ts, outer.first ≤ t.line ∧ t.line ≤ outer.last) : n.span.Within outer := by
  obtain ⟨us, hus, hmarks, -⟩ := h.exists_marks
  exact hmarks.within fun t ht => hts t (hus.subset ht)

lemma nested_name {span : Span} (id : String) (h : span.first ≤ span.last) :
    (Part.expr (.name span id)).Nested := by
  intro m hm
  cases hm with
  | self => exact ⟨h, nofun⟩
  | child hc _ => cases hc

/-- Spans on tokens whose lines never go back are nested. -/
lemma nested_of_standsOn (h : n.StandsOn ts) (ho : Token.InOrder ts) : n.Nested := by
  intro m hm
  induction hm generalizing ts with
  | self n =>
    obtain ⟨us, hus, hmarks, hinner⟩ := h.exists_marks
    have hous : Token.InOrder us := ho.sublist hus
    refine ⟨hmarks.first_le_last hous, fun c hc => ?_⟩
    rcases hinner c hc with ⟨run, hrun, hstands⟩ | ⟨id, rfl⟩
    · exact hstands.within fun t ht => hmarks.bounds hous t (hrun.subset ht)
    · exact ⟨Nat.le_refl _, Nat.le_refl _⟩
  | @child n c m hc hm ih =>
    obtain ⟨us, hus, hmarks, hinner⟩ := h.exists_marks
    have hous : Token.InOrder us := ho.sublist hus
    rcases hinner c hc with ⟨run, hrun, hstands⟩ | ⟨id, rfl⟩
    · exact ih hstands (hous.sublist hrun)
    · exact nested_name id (hmarks.first_le_last hous) m hm

end Part

/-- The spans of a whole script are nested too. -/
lemma Stmt.StandsOnScan.nested {s : Stmt} {scan : Token.Scan} (h : s.StandsOnScan scan)
    (ho : Token.InOrder scan.tokens) (hlast : ∀ t ∈ scan.tokens, t.line ≤ scan.line) :
    (Part.stmt s).Nested := by
  obtain ⟨span, body, rfl, hbody, hspan⟩ := h
  have hbounds : ∀ t ∈ scan.tokens, span.first ≤ t.line ∧ t.line ≤ span.last := by
    intro t ht
    rw [hspan]
    refine ⟨?_, hlast t ht⟩
    cases hts : scan.tokens with
    | nil => simp [hts] at ht
    | cons u rest =>
      rw [hts] at ho ht
      rcases List.mem_cons.1 ht with rfl | ht
      · exact Nat.le_refl _
      · exact List.rel_of_pairwise_cons ho ht
  have hle : span.first ≤ span.last := by
    cases hts : scan.tokens with
    | nil => simp [hspan, hts]
    | cons u rest =>
      have hu := hbounds u (hts ▸ List.mem_cons_self)
      omega
  have hinner : ∀ c ∈ (Part.stmt (.block span body)).inner,
      (∃ run, run.Sublist scan.tokens ∧ c.StandsOn run) ∨ ∃ id, c = .expr (.name span id) := by
    intro c hc
    refine hbody.exists_run ?_
    simpa [Part.inner, Part.members, Stmt.members, Member.part?] using hc
  intro m hm
  cases hm with
  | self =>
    refine ⟨hle, fun c hc => ?_⟩
    rcases hinner c hc with ⟨run, hrun, hstands⟩ | ⟨id, rfl⟩
    · exact hstands.within fun t ht => hbounds t (hrun.subset ht)
    · exact ⟨Nat.le_refl _, Nat.le_refl _⟩
  | @child _ c _ hc hm =>
    rcases hinner c hc with ⟨run, hrun, hstands⟩ | ⟨id, rfl⟩
    · exact Part.nested_of_standsOn hstands (ho.sublist hrun) m hm
    · exact Part.nested_name id hle m hm

/-! ## The lines of a scan -/

namespace Token

lemma line_le_after (p : Place) (pc : Piece) (cs : List Char) : p.line ≤ (p.after pc cs).line := by
  unfold Place.after
  cases pc with
  | newline => exact Nat.le_add_right _ _
  | _ => exact Nat.le_refl _

/-- Scanning never goes back to an earlier line. -/
lemma scanFrom_inOrder (p : Place) (cs : List Char) :
    InOrder (scanFrom p cs).tokens ∧ p.line ≤ (scanFrom p cs).line ∧
      ∀ t ∈ (scanFrom p cs).tokens, p.line ≤ t.line ∧ t.line ≤ (scanFrom p cs).line := by
  fun_induction scanFrom p cs with
  | case1 p => exact ⟨.nil, Nat.le_refl _, fun t ht => absurd ht List.not_mem_nil⟩
  | case2 p c rest more hpiece => exact ⟨.nil, Nat.le_refl _, fun t ht => absurd ht List.not_mem_nil⟩
  | case3 p c rest more digits hpiece => exact ⟨.nil, Nat.le_refl _, fun t ht => absurd ht List.not_mem_nil⟩
  | case4 p c rest more l hpiece next scan ih =>
    obtain ⟨horder, hline, hall⟩ := ih
    have hnext : p.line ≤ next.line := line_le_after p _ _
    refine ⟨.cons (fun t ht => hnext.trans (hall t ht).1) horder, hnext.trans hline, fun t ht => ?_⟩
    rcases List.mem_cons.1 ht with rfl | ht
    · exact ⟨Nat.le_refl _, hnext.trans hline⟩
    · exact ⟨hnext.trans (hall t ht).1, (hall t ht).2⟩
  | case5 p c rest pc more hpiece next hillegal hlong hlexeme ih =>
    obtain ⟨horder, hline, hall⟩ := ih
    have hnext : p.line ≤ next.line := line_le_after p _ _
    exact ⟨horder, hnext.trans hline, fun t ht => ⟨hnext.trans (hall t ht).1, (hall t ht).2⟩⟩

end Token

end MatScript
