import MatScript.Proofs.ParseSound

/-! The parser accepts every script in normal form and builds its tree, lines apart. With what it
accepts being in normal form, parsing is the inverse of writing. -/
namespace MatScript
namespace Parse

lemma feedAll_append {st st' : State} {ts us : List Token} (h : st.feedAll ts = .ok st') :
    st.feedAll (ts ++ us) = st'.feedAll us := by
  induction ts generalizing st with
  | nil =>
    cases h
    rfl
  | cons t ts ih =>
    rw [State.feedAll] at h
    rw [List.cons_append, State.feedAll]
    split at h
    · cases h
    · next st₁ hfeed => exact ih h

/-- Whatever tokens say `ls`, they can be read, and what holds after them. -/
def Reaches (st : State) (ls : List Lexeme) (P : State → Prop) : Prop :=
  ∀ ts : List Token, ts.map Token.lexeme = ls → ∃ st', st.feedAll ts = .ok st' ∧ P st'

namespace Reaches

variable {st st' : State} {l : Lexeme} {ls ls' : List Lexeme} {P Q : State → Prop}

lemma nil (h : P st) : Reaches st [] P := by
  intro ts hts
  rw [List.map_eq_nil_iff.1 hts]
  exact ⟨st, rfl, h⟩

lemma cons (h : ∀ t : Token, t.lexeme = l → ∃ st', st.feed t = some st' ∧ Reaches st' ls P) :
    Reaches st (l :: ls) P := by
  intro ts hts
  obtain ⟨t, us, rfl, ht, hus⟩ := List.map_eq_cons_iff.1 hts
  obtain ⟨st₁, hfeed, hrest⟩ := h t ht
  obtain ⟨st₂, hall, hP⟩ := hrest us hus
  refine ⟨st₂, ?_, hP⟩
  rw [State.feedAll, hfeed]
  exact hall

lemma append (h : Reaches st ls P) (h' : ∀ st', P st' → Reaches st' ls' Q) :
    Reaches st (ls ++ ls') Q := by
  intro ts hts
  obtain ⟨us, vs, rfl, hus, hvs⟩ := List.map_eq_append_iff.1 hts
  obtain ⟨st₁, hread, hP⟩ := h us hus
  obtain ⟨st₂, hread', hQ⟩ := h' st₁ hP vs hvs
  refine ⟨st₂, ?_, hQ⟩
  rw [feedAll_append hread]
  exact hread'

lemma imp (h : Reaches st ls P) (hPQ : ∀ st', P st' → Q st') : Reaches st ls Q := by
  intro ts hts
  obtain ⟨st₁, hread, hP⟩ := h ts hts
  exact ⟨st₁, hread, hPQ st₁ hP⟩

/-- One lexeme, whose token leads to a known state on each line. -/
lemma single (h : ∀ t : Token, t.lexeme = l → ∃ st', st.feed t = some st' ∧ P st') :
    Reaches st [l] P :=
  cons fun t ht => by
    obtain ⟨st', hfeed, hP⟩ := h t ht
    exact ⟨st', hfeed, nil hP⟩

/-- Only the first token tells two states apart. -/
lemma of_first (h : ∀ t : Token, t.lexeme = l → st.feed t = st'.feed t)
    (hr : Reaches st' (l :: ls) P) : Reaches st (l :: ls) P := by
  intro ts hts
  obtain ⟨st₁, hread, hP⟩ := hr ts hts
  obtain ⟨t, us, rfl, ht, hus⟩ := List.map_eq_cons_iff.1 hts
  refine ⟨st₁, ?_, hP⟩
  rw [State.feedAll, h t ht]
  exact hread

end Reaches

/-! ## Expressions -/

/-- The operand that has just been read. -/
def Mode.Holds (mode : Mode) (e : Expr) : Prop :=
  mode = .operator e ∨ ∃ id line, mode = .word id line false ∧ e = .name ⟨line, line⟩ id

/-- What the operators that are still open will make of an operand just read, once one that binds
less tightly follows. Atoms and transpositions leave nothing open. -/
structure Pending (stack : List Frame) (e : Expr) (stack' : List Frame) (operand : Expr) :
    Prop where
  close : ∀ l ≤ e.level, closeOperators l stack' operand = closeOperators l stack e
  atom : 4 ≤ e.level → stack' = stack ∧ operand = e

/-- The expression `e`, lines apart, has been read on top of `stack`. -/
def ReadExpr (st : State) (stack : List Frame) (e : Expr) (after : State) : Prop :=
  ∃ stack' mode operand e', after = { st with stack := stack', mode := mode } ∧
    mode.Holds operand ∧ e'.bare = e.bare ∧ Pending stack e' stack' operand

/-- Nothing on top of the stack waits for an operand of this level or takes it from the left. -/
lemma closeOperators_of_floor_le {level : Nat} {stack : List Frame} (h : floor stack ≤ level)
    (hl : level ≤ 2) (e : Expr) : closeOperators level stack e = (e, stack) := by
  cases stack with
  | nil => rfl
  | cons frame rest =>
    cases frame with
    | negate line =>
      have hthree : 3 ≤ level := h
      omega
    | binary symbol left =>
      have hlt : symbol.level?.getD 0 + 1 ≤ level := h
      rw [closeOperators, if_neg (by omega)]
    | _ => rfl

lemma feed_of_holds {st : State} {e : Expr} {t : Token} (hm : st.mode.Holds e)
    (ht : t.lexeme ≠ .symbol .squareLeft) : st.feed t = st.feedOperator e t := by
  unfold State.feed
  rcases hm with hm | ⟨id, line, hm, rfl⟩
  · rw [hm]
  · rw [hm]
    dsimp only
    split
    · next hsq => exact absurd hsq ht
    · rfl

/-- A lexeme after which an expression is complete. -/
def EndsExpr (l : Lexeme) : Prop :=
  ∀ s, l = .symbol s → s ≠ .squareLeft ∧ s ≠ .apostrophe ∧ s.level? = none

/-- After a complete expression a token goes to the construct around it. -/
lemma ReadExpr.feed_end {st after : State} {stack : List Frame} {e : Expr}
    (h : ReadExpr st stack e after) (hf : floor stack = 0) :
    ∃ stack' mode e', e'.bare = e.bare ∧ ∀ t : Token, EndsExpr t.lexeme → after.feed t =
      State.feedEnd { st with stack := stack', mode := mode } stack e' t := by
  obtain ⟨stack', mode, operand, e', rfl, hm, hbare, hpending⟩ := h
  have hclose : closeOperators 0 stack' operand = (e', stack) :=
    (hpending.close 0 (Nat.zero_le _)).trans
      (closeOperators_of_floor_le (Nat.le_of_eq hf) (Nat.zero_le 2) e')
  refine ⟨stack', mode, e', hbare, fun t ht => ?_⟩
  rw [feed_of_holds hm fun hsq => (ht _ hsq).1 rfl,
    State.feedOperator_end fun s hs => (ht s hs).2, hclose]

/-- What the parser does with an expression in normal form. -/
def Reads (e : Expr) : Prop :=
  ∀ (st : State) (stack : List Frame), floor stack ≤ e.level →
    Reaches { st with stack, mode := .operand } e.lexemes (ReadExpr st stack e)

/-- A construct that holds a list of expressions with commas between them. -/
structure IsListFrame (frame : List Expr → Frame) : Prop where
  floor_eq : ∀ items, (frame items).floor = 0
  feedEnd_comma : ∀ (st : State) (items : List Expr) (stack : List Frame) (e : Expr) (t : Token),
    t.lexeme = .symbol .comma →
      st.feedEnd (frame items :: stack) e t = st.goOn (frame (e :: items) :: stack) .operand

lemma isListFrame_vector (line : Nat) : IsListFrame (.vector line) :=
  ⟨fun _ => rfl, fun _ _ _ _ _ ht => by simp only [State.feedEnd, ht]⟩

lemma isListFrame_element (id : String) (idLine line : Nat) (isTarget : Bool) :
    IsListFrame (.element id idLine line isTarget) :=
  ⟨fun _ => rfl, fun _ _ _ _ _ ht => by simp only [State.feedEnd, ht]⟩

lemma isListFrame_call (function : Keyword) (line : Nat) : IsListFrame (.call function line) :=
  ⟨fun _ => rfl, fun _ _ _ _ _ ht => by simp only [State.feedEnd, ht]⟩

lemma isListFrame_print (line : Nat) : IsListFrame (.print line) :=
  ⟨fun _ => rfl, fun _ _ _ _ _ ht => by simp only [State.feedEnd, ht]⟩

/-- After the list a token goes to the construct, with the items read. -/
def ReadItems (st : State) (frame : List Expr → Frame) (stack : List Frame) (items es : List Expr)
    (after : State) : Prop :=
  ∃ stack' mode e' items' es', (e' :: items').reverse = items.reverse ++ es' ∧
    Expr.bareAll es' = Expr.bareAll es ∧
    ∀ t : Token, EndsExpr t.lexeme → after.feed t =
      State.feedEnd { st with stack := stack', mode := mode } (frame items' :: stack) e' t

lemma endsExpr_comma : EndsExpr (.symbol .comma) := by
  rintro s ⟨⟩
  decide

lemma reaches_items {frame : List Expr → Frame} (hframe : IsListFrame frame) {es : List Expr}
    (hne : es ≠ []) (hes : ∀ e ∈ es, Reads e) (st : State) (stack : List Frame)
    (items : List Expr) :
    Reaches { st with stack := frame items :: stack, mode := .operand }
      (Lexeme.separated (Expr.lexemesAll es)) (ReadItems st frame stack items es) := by
  induction es generalizing items with
  | nil => exact absurd rfl hne
  | cons e es ih =>
    have hfloor : floor (frame items :: stack) = 0 := hframe.floor_eq items
    have hread := hes e List.mem_cons_self st (frame items :: stack) (by omega)
    cases es with
    | nil =>
      have hls : Lexeme.separated (Expr.lexemesAll [e]) = e.lexemes := by
        simp [Lexeme.separated, Expr.lexemesAll]
      rw [hls]
      refine hread.imp fun after hafter => ?_
      obtain ⟨stack', mode, e', hbare, hfeed⟩ := hafter.feed_end hfloor
      refine ⟨stack', mode, e', items, [e'], List.reverse_cons, ?_, hfeed⟩
      rw [Expr.bareAll, Expr.bareAll, hbare]
      rfl
    | cons e₂ es =>
      have hls : Lexeme.separated (Expr.lexemesAll (e :: e₂ :: es)) =
          e.lexemes ++ .symbol .comma :: Lexeme.separated (Expr.lexemesAll (e₂ :: es)) := by
        simp [Lexeme.separated, Expr.lexemesAll, List.intercalate]
      rw [hls]
      refine hread.append fun after hafter => .cons fun t ht => ?_
      obtain ⟨stack', mode, e', hbare, hfeed⟩ := hafter.feed_end hfloor
      rw [hfeed t (ht ▸ endsExpr_comma), hframe.feedEnd_comma _ _ _ _ _ ht]
      refine ⟨_, rfl, ?_⟩
      have hrest := ih (List.cons_ne_nil e₂ es) (fun x hx => hes x (List.mem_cons_of_mem e hx))
        (e' :: items)
      refine hrest.imp fun after' h => ?_
      obtain ⟨stack₂, mode₂, last, items', es', hrev, hbares, hend⟩ := h
      refine ⟨stack₂, mode₂, last, items', e' :: es', ?_, ?_, hend⟩
      · rw [hrev, List.reverse_cons, List.append_assoc]
        rfl
      · rw [Expr.bareAll, Expr.bareAll, hbare, hbares]

lemma level_eq_of_bare {e e' : Expr} (h : e'.bare = e.bare) : e'.level = e.level := by
  rw [← e'.level_bare, h, e.level_bare]

lemma readExpr_atom {st : State} {stack : List Frame} {mode : Mode} {e operand : Expr}
    (hm : mode.Holds operand) (hbare : operand.bare = e.bare) :
    ReadExpr st stack e { st with stack := stack, mode := mode } :=
  ⟨stack, mode, operand, operand, rfl, hm, hbare, fun _ _ => rfl, fun _ => ⟨rfl, rfl⟩⟩

lemma feedOperand_constant {st : State} {t : Token} {value : Constant} (hv : value.Normal)
    (ht : value.lexemes = [t.lexeme]) :
    st.feedOperand t = st.goOn st.stack (.operator (.constant ⟨t.line, t.line⟩ value)) := by
  obtain ⟨lexeme, line, column, offset⟩ := t
  cases value with
  | none => exact hv.elim
  | bool b => cases b <;> cases ht <;> rfl
  | int n =>
    obtain ⟨m, rfl⟩ := Int.eq_ofNat_of_zero_le hv
    cases ht
    rfl
  | float x | text s =>
    cases ht
    rfl

lemma reads_constant {span : Span} {value : Constant} (hv : value.Normal) :
    Reads (.constant span value) := by
  intro st stack _
  obtain ⟨l, hl⟩ : ∃ l, value.lexemes = [l] := by
    cases value with
    | none => exact hv.elim
    | _ => exact ⟨_, rfl⟩
  rw [Expr.lexemes, hl]
  refine .single fun t ht => ⟨_, feedOperand_constant hv (ht ▸ hl), ?_⟩
  exact readExpr_atom (.inl rfl) rfl

lemma reads_name (span : Span) (id : String) : Reads (.name span id) := by
  intro st stack _
  refine .single fun t ht => ⟨_, by simp only [State.feed, State.feedOperand, ht]; rfl, ?_⟩
  exact readExpr_atom (.inr ⟨id, t.line, rfl, rfl⟩) rfl

lemma reads_vector {span : Span} {items : List Expr} (hne : items ≠ [])
    (hitems : ∀ e ∈ items, Reads e) : Reads (.vector span items) := by
  intro st stack _
  refine .cons fun t ht => ⟨_, by simp only [State.feed, State.feedOperand, ht]; rfl, ?_⟩
  refine (reaches_items (isListFrame_vector t.line) hne hitems st stack []).append
    fun after hafter => .single fun u hu => ?_
  obtain ⟨stack', mode, e', items', es', hrev, hbare, hfeed⟩ := hafter
  rw [hfeed u (hu ▸ by rintro s ⟨⟩; decide)]
  refine ⟨_, by simp only [State.feedEnd, hu]; rfl, readExpr_atom (.inl rfl) ?_⟩
  rw [Expr.bare, Expr.bare, hrev, List.reverse_nil, List.nil_append, hbare]

lemma reads_binary {span : Span} {s : Symbol} {k : Nat} {left right : Expr}
    (hk : s.level? = some k) (hl : max k 1 ≤ left.level) (hr : k < right.level)
    (hleft : Reads left) (hright : Reads right) :
    Reads (.operator span s.spelling [left, right]) := by
  intro st stack hf
  have hk2 := Symbol.level?_le_two hk
  have hlevel : (Expr.operator span s.spelling [left, right]).level = k :=
    operatorLevel_spelling hk
  have hls : (Expr.operator span s.spelling [left, right]).lexemes =
      left.lexemes ++ .symbol s :: right.lexemes := by
    simp [Expr.lexemes, Expr.lexemesAll, Lexeme.ofOperator]
  rw [hlevel] at hf
  rw [hls]
  refine (hleft st stack (by omega)).append fun after hafter => .cons fun t ht => ?_
  obtain ⟨stack', mode, operand, left', rfl, hm, hbare, hpending⟩ := hafter
  have hl' := level_eq_of_bare hbare
  have hsq : t.lexeme ≠ .symbol .squareLeft := by
    rw [ht]
    rintro ⟨⟩
    cases hk
  rw [feed_of_holds hm hsq, State.feedOperator_binary ht hk, hpending.close _ (by omega),
    closeOperators_of_floor_le (by omega) (by omega), if_pos hf]
  refine ⟨_, rfl, ?_⟩
  have hfloor : floor (.binary s left' :: stack) ≤ right.level := by
    rw [floor, Frame.floor_binary hk]
    exact hr
  refine (hright st (.binary s left' :: stack) hfloor).imp fun after hafter => ?_
  obtain ⟨stack₂, mode₂, operand₂, right', rfl, hm₂, hbare₂, hpending₂⟩ := hafter
  have hr' := level_eq_of_bare hbare₂
  refine ⟨stack₂, mode₂, operand₂,
    .operator ⟨left'.span.first, right'.span.last⟩ s.spelling [left', right'], rfl, hm₂, ?_, ?_, ?_⟩
  · simp only [Expr.bare, Expr.bareAll, hbare, hbare₂]
  · intro l hle
    have hlk : l ≤ k := by rw [Expr.level, operatorLevel_spelling hk] at hle; exact hle
    rw [hpending₂.close l (by omega), closeOperators]
    simp only [hk, Option.getD_some, if_pos hlk]
  · intro hfour
    rw [Expr.level, operatorLevel_spelling hk] at hfour
    omega

lemma reads_negate {span : Span} {e : Expr} (hl : 3 ≤ e.level) (he : Reads e) :
    Reads (.operator span "u-" [e]) := by
  intro st stack _
  have hls : (Expr.operator span "u-" [e]).lexemes = .symbol .minus :: e.lexemes := by
    simp [Expr.lexemes, Expr.lexemesAll, Lexeme.ofOperator]
  rw [hls]
  refine .cons fun t ht => ⟨_, by simp only [State.feed, State.feedOperand, ht]; rfl, ?_⟩
  refine (he st (.negate t.line :: stack) hl).imp fun after hafter => ?_
  obtain ⟨stack', mode, operand, e', rfl, hm, hbare, hpending⟩ := hafter
  have hl' := level_eq_of_bare hbare
  refine ⟨stack', mode, operand, .operator ⟨t.line, e'.span.last⟩ "u-" [e'], rfl, hm, ?_, ?_, ?_⟩
  · simp only [Expr.bare, Expr.bareAll, hbare]
  · intro l hle
    have hthree : l ≤ 3 := hle
    rw [hpending.close l (by omega), closeOperators]
  · intro hfour
    have hfalse : 4 ≤ 3 := hfour
    omega

lemma reads_transpose {span : Span} {e : Expr} (hl : 4 ≤ e.level) (he : Reads e) :
    Reads (.operator span Symbol.apostrophe.spelling [e]) := by
  intro st stack _
  have hls : (Expr.operator span Symbol.apostrophe.spelling [e]).lexemes =
      e.lexemes ++ [.symbol .apostrophe] := by
    simp [Expr.lexemes, Expr.lexemesAll, Lexeme.ofOperator, Symbol.spelling_ne_negation]
  have hf := floor_le_three stack
  rw [hls]
  refine (he st stack (by omega)).append fun after hafter => .single fun t ht => ?_
  obtain ⟨stack', mode, operand, e', rfl, hm, hbare, hpending⟩ := hafter
  obtain ⟨rfl, rfl⟩ := hpending.atom (by rw [level_eq_of_bare hbare]; exact hl)
  rw [feed_of_holds hm (by rw [ht]; rintro ⟨⟩), State.feedOperator_apostrophe ht]
  refine ⟨_, rfl, readExpr_atom (.inl rfl) ?_⟩
  simp only [Expr.bare, Expr.bareAll, hbare]

lemma reads_call {span : Span} {k : Keyword} {arguments : List Expr} (hk : k.MakesMatrix)
    (hne : arguments ≠ []) (harguments : ∀ e ∈ arguments, Reads e) :
    Reads (.call span k.spelling arguments) := by
  intro st stack _
  rw [Expr.lexemes, Lexeme.ofWordName_spelling]
  refine .cons fun t ht => ⟨{ st with stack := stack, mode := .opening (.call k t.line []) }, ?_, ?_⟩
  · rcases hk with rfl | rfl | rfl <;> (simp only [State.feed, State.feedOperand, ht]; rfl)
  refine .cons fun u hu => ⟨_, by simp only [State.feed, hu]; rfl, ?_⟩
  refine (reaches_items (isListFrame_call k t.line) hne harguments st stack []).append
    fun after hafter => .single fun v hv => ?_
  obtain ⟨stack', mode, e', items', es', hrev, hbare, hfeed⟩ := hafter
  rw [hfeed v (hv ▸ by rintro s ⟨⟩; decide)]
  refine ⟨_, by simp only [State.feedEnd, hv]; rfl, readExpr_atom (.inl rfl) ?_⟩
  rw [Expr.bare, Expr.bare, hrev, List.reverse_nil, List.nil_append, hbare]

/-- The indices of an element, on the left side of an assignment or in an expression. -/
lemma reaches_indices {indices : List Expr} (hne : indices ≠ []) (hindices : ∀ e ∈ indices, Reads e)
    (span idSpan indexSpan : Span) (id : String) (line : Nat) (isTarget : Bool) (st : State)
    (stack : List Frame) :
    Reaches { st with stack := stack, mode := .word id line isTarget }
      (.symbol .squareLeft :: Lexeme.separated (Expr.lexemesAll indices) ++ [.symbol .squareRight])
      fun after => ∃ e' : Expr, e'.IsTarget ∧
        e'.bare = (Expr.element span id idSpan indices indexSpan).bare ∧
        after = { st with stack := stack, mode := if isTarget then .target e' else .operator e' } := by
  refine .cons fun t ht => ⟨_, by simp only [State.feed, ht]; rfl, ?_⟩
  refine (reaches_items (isListFrame_element id line t.line isTarget) hne hindices st stack
    []).append fun after hafter => .single fun u hu => ?_
  obtain ⟨stack', mode, e', items', es', hrev, hbare, hfeed⟩ := hafter
  rw [hfeed u (hu ▸ by rintro s ⟨⟩; decide)]
  refine ⟨_, by simp only [State.feedEnd, hu]; rfl, .element ⟨line, u.line⟩ id ⟨line, line⟩
    (e' :: items').reverse ⟨t.line, u.line⟩, trivial, ?_, rfl⟩
  rw [Expr.bare, Expr.bare, hrev, List.reverse_nil, List.nil_append, hbare]

lemma reads_element {span idSpan indexSpan : Span} {id : String} {indices : List Expr}
    (hne : indices ≠ []) (hindices : ∀ e ∈ indices, Reads e) :
    Reads (.element span id idSpan indices indexSpan) := by
  intro st stack _
  refine .cons fun t ht => ⟨_, by simp only [State.feed, State.feedOperand, ht]; rfl, ?_⟩
  refine (reaches_indices hne hindices span idSpan indexSpan id t.line false st stack).imp
    fun after hafter => ?_
  obtain ⟨e', _, hbare, rfl⟩ := hafter
  exact readExpr_atom (.inl rfl) hbare

mutual

/-- Every expression in normal form is read as it stands. -/
lemma reads_of_normal : ∀ e : Expr, e.Normal → Reads e
  | .constant _ _, h => reads_constant h
  | .vector _ items, h => reads_vector h.1 (reads_of_normalAll items h.2)
  | .operator span symbol operands, h => by
    have hall := reads_of_normalAll operands h.2
    obtain ⟨hfit, -⟩ := h
    match operands with
    | [e] =>
      rcases hfit with ⟨rfl, hl⟩ | ⟨rfl, hl⟩
      · exact reads_negate hl (hall e List.mem_cons_self)
      · exact reads_transpose hl (hall e List.mem_cons_self)
    | [left, right] =>
      obtain ⟨s, k, rfl, hk, hl, hr⟩ := hfit
      exact reads_binary hk hl hr (hall left List.mem_cons_self)
        (hall right (List.mem_cons_of_mem left List.mem_cons_self))
    | [] | _ :: _ :: _ :: _ => exact hfit.elim
  | .call _ _ arguments, h => by
    obtain ⟨⟨k, hk, rfl⟩, hne, harguments⟩ := h
    exact reads_call hk hne (reads_of_normalAll arguments harguments)
  | .name span id, _ => reads_name span id
  | .element _ _ _ indices _, h => reads_element h.1 (reads_of_normalAll indices h.2)
  | .range _ _ _, h | .gap _ _, h => h.elim

lemma reads_of_normalAll : ∀ es : List Expr, Expr.NormalAll es → ∀ e ∈ es, Reads e
  | [], _ => fun _ h => nomatch h
  | e :: es, h => List.forall_mem_cons.2 ⟨reads_of_normal e h.1, reads_of_normalAll es h.2⟩

end

/-! ## Statements -/

/-- Where a statement goes does not depend on what was on the stack before. -/
lemma finish_with (st : State) (stack₀ : List Frame) (mode : Mode) (final : Bool) (s : Stmt)
    (span : Span) (stack : List Frame) :
    State.finish { st with stack := stack₀, mode := mode } final s span stack =
      st.finish final s span stack := by
  induction stack generalizing s span with
  | nil => rfl
  | cons frame rest ih =>
    cases frame with
    | whileBody _ _ | forBody _ _ _ | elseBranch _ _ _ => exact ih _ _
    | thenBranch _ _ =>
      rw [State.finish, State.finish]
      split
      · exact ih _ _
      · rfl
    | _ => rfl

lemma feedStatement_with (st : State) (mode : Mode) (t : Token) :
    State.feedStatement { st with mode := mode } t = st.feedStatement t := by
  unfold State.feedStatement
  cases t.lexeme with
  | symbol s =>
    cases s with
    | curlyRight =>
      dsimp only
      split
      · exact congrArg some (finish_with st st.stack mode _ _ _ _)
      · rfl
    | _ => rfl
  | keyword k => cases k <;> rfl
  | _ => rfl

lemma settle_finish_false (st : State) (s : Stmt) (span : Span) (stack : List Frame) :
    (st.finish false s span stack).settle = st.finish true s span stack := by
  induction stack generalizing s span with
  | nil => rfl
  | cons frame rest ih =>
    cases frame with
    | whileBody _ _ | forBody _ _ _ | elseBranch _ _ _ => exact ih _ _
    | thenBranch line condition => exact finish_with st (.thenBranch line condition :: rest) _ _ _ _ _
    | _ => rfl

lemma settle_of_statement {st : State} (h : st.mode = .statement) : st.settle = st := by
  rw [State.settle, h]

/-- Only `else` can go on with a first branch. -/
lemma feed_settle (st : State) {t : Token} (ht : t.lexeme ≠ .keyword .else) :
    st.feed t = st.settle.feed t := by
  unfold State.settle
  split
  · next yes span hm =>
    have hfeed : (st.finish true yes span st.stack).feed t =
        (st.finish true yes span st.stack).feedStatement t := by
      rw [State.feed, State.mode_finish_true]
    rw [hfeed, State.feed, hm]
    dsimp only
    split
    · next helse _ => exact absurd helse ht
    · rfl
  · rfl

/-- The statement `s`, lines apart, has been read. If it could go on with `else`, then only once
the next token is known. -/
def ReadStmt (st : State) (stack : List Frame) (s : Stmt) (after : State) : Prop :=
  ∃ s' span, s'.bare = s.bare ∧ after.settle = st.finish true s' span stack ∧
    (s.endsOpen = false → after = st.finish false s' span stack)

lemma readStmt_finish {st : State} {stack : List Frame} {s : Stmt} (s' : Stmt) (span : Span)
    (h : s'.bare = s.bare) : ReadStmt st stack s (st.finish false s' span stack) :=
  ⟨s', span, h, settle_finish_false st s' span stack, fun _ => rfl⟩

/-- What the parser does with a statement in normal form. -/
def ReadsStmt (s : Stmt) : Prop :=
  ∀ (st : State) (stack : List Frame),
    Reaches { st with stack, mode := .statement } s.lexemes (ReadStmt st stack s)

lemma endsExpr_semicolon : EndsExpr (.symbol .semicolon) := by
  rintro s ⟨⟩
  decide

/-- The left side of an assignment. -/
lemma reaches_target {target : Expr} (htarget : target.IsTarget) (hn : target.Normal) (st : State)
    (stack : List Frame) :
    Reaches { st with stack, mode := .statement } target.lexemes fun after =>
      ∃ target' : Expr, target'.bare = target.bare ∧
        ∀ (t : Token) (s : Symbol), t.lexeme = .symbol s → s.isAssignment →
          after.feed t = some { st with stack := .assign target' s :: stack, mode := .operand } := by
  cases target with
  | name span id =>
    refine .single fun t ht => ⟨_, by simp only [State.feed, State.feedStatement, ht]; rfl, ?_⟩
    refine ⟨.name ⟨t.line, t.line⟩ id, rfl, fun u s hu hs => ?_⟩
    have hsq : u.lexeme ≠ .symbol .squareLeft := by
      rw [hu]
      rintro ⟨⟩
      cases hs
    unfold State.feed
    dsimp only
    split
    · next h => exact absurd h hsq
    · simp only [State.feedTarget, hu, hs, if_true]
      rfl
  | element span id idSpan indices indexSpan =>
    refine .cons fun t ht => ⟨_, by simp only [State.feed, State.feedStatement, ht]; rfl, ?_⟩
    refine (reaches_indices hn.1 (reads_of_normalAll indices hn.2) span idSpan indexSpan id t.line
      true st stack).imp fun after hafter => ?_
    obtain ⟨e', _, hbare, rfl⟩ := hafter
    refine ⟨e', hbare, fun u s hu hs => ?_⟩
    simp only [State.feed, State.feedTarget, hu, hs, if_true]
    rfl
  | _ => exact htarget.elim

/-- An assignment with any of its symbols. -/
lemma reaches_assignment {s : Symbol} {target value : Expr} (hs : s.isAssignment)
    (htarget : target.IsTarget) (hn : target.Normal) (hv : value.Normal) (st : State)
    (stack : List Frame) :
    Reaches { st with stack, mode := .statement }
      (target.lexemes ++ .symbol s :: value.lexemes ++ [.symbol .semicolon]) fun after =>
      ∃ target' value' span, target'.bare = target.bare ∧ value'.bare = value.bare ∧
        after = st.finish false (if s = .assign then .assign span target' value'
          else .update span s.spelling target' value') span stack := by
  rw [List.append_assoc]
  refine (reaches_target htarget hn st stack).append fun after hafter => .cons fun t ht => ?_
  obtain ⟨target', hbare, hfeed⟩ := hafter
  refine ⟨_, hfeed t s ht hs, ?_⟩
  refine (reads_of_normal value hv st (.assign target' s :: stack) (Nat.zero_le _)).append
    fun after hafter => .single fun u hu => ?_
  obtain ⟨stack', mode, value', hbare', hend⟩ := hafter.feed_end rfl
  refine ⟨_, (hend u (hu ▸ endsExpr_semicolon)).trans ?_, target', value',
    ⟨target'.span.first, u.line⟩, hbare, hbare', rfl⟩
  simp only [State.feedEnd, hu, finish_with]

lemma reads_assign {span : Span} {target value : Expr} (h : (Stmt.assign span target value).Normal) :
    ReadsStmt (.assign span target value) := by
  intro st stack
  obtain ⟨htarget, hn, hv⟩ := h
  refine (reaches_assignment (s := .assign) rfl htarget hn hv st stack).imp fun after hafter => ?_
  obtain ⟨target', value', span', hbare, hbare', rfl⟩ := hafter
  rw [if_pos rfl]
  exact readStmt_finish _ span' (by rw [Stmt.bare, Stmt.bare, hbare, hbare'])

lemma reads_update {span : Span} {symbol : String} {target value : Expr}
    (h : (Stmt.update span symbol target value).Normal) :
    ReadsStmt (.update span symbol target value) := by
  intro st stack
  obtain ⟨⟨s, hs, hne, rfl⟩, htarget, hn, hv⟩ := h
  have hls : (Stmt.update span s.spelling target value).lexemes =
      target.lexemes ++ .symbol s :: value.lexemes ++ [.symbol .semicolon] := by
    simp [Stmt.lexemes]
  rw [hls]
  refine (reaches_assignment hs htarget hn hv st stack).imp fun after hafter => ?_
  obtain ⟨target', value', span', hbare, hbare', rfl⟩ := hafter
  rw [if_neg hne]
  exact readStmt_finish _ span' (by rw [Stmt.bare, Stmt.bare, hbare, hbare'])

lemma reads_instruction {span : Span} {name : String} {arguments : List Expr}
    (h : (Stmt.instruction span name arguments).Normal) :
    ReadsStmt (.instruction span name arguments) := by
  intro st stack
  obtain ⟨hfit, hn⟩ := h
  rcases hfit with ⟨rfl, hpos⟩ | ⟨rfl, hone⟩ | ⟨⟨k, hk, rfl⟩, hzero⟩
  · rw [Stmt.lexemes, Lexeme.ofWordName_spelling, List.singleton_append]
    refine .cons fun t ht => ⟨_, by simp only [State.feed, State.feedStatement, ht]; rfl, ?_⟩
    refine (reaches_items (isListFrame_print t.line) (List.ne_nil_of_length_pos hpos)
      (reads_of_normalAll arguments hn) st stack []).append fun after hafter => .single fun u hu => ?_
    obtain ⟨stack', mode, e', items', es', hrev, hbare, hfeed⟩ := hafter
    refine ⟨_, (hfeed u (hu ▸ endsExpr_semicolon)).trans ?_, readStmt_finish
      (.instruction ⟨t.line, u.line⟩ Keyword.print.spelling (e' :: items').reverse)
      ⟨t.line, u.line⟩ ?_⟩
    · simp only [State.feedEnd, hu, finish_with]
    · rw [Stmt.bare, Stmt.bare, hrev, List.reverse_nil, List.nil_append, hbare]
  · obtain ⟨e, rfl⟩ := List.length_eq_one_iff.1 hone
    have hls : (Stmt.instruction span Keyword.return.spelling [e]).lexemes =
        .keyword .return :: (e.lexemes ++ [.symbol .semicolon]) := by
      simp [Stmt.lexemes, Expr.lexemesAll, Lexeme.separated]
    rw [hls]
    refine .cons fun t ht => ⟨_, by simp only [State.feed, State.feedStatement, ht]; rfl, ?_⟩
    refine (reads_of_normal e hn.1 st (.result t.line :: stack) (Nat.zero_le _)).append
      fun after hafter => .single fun u hu => ?_
    obtain ⟨stack', mode, e', hbare, hend⟩ := hafter.feed_end rfl
    refine ⟨_, (hend u (hu ▸ endsExpr_semicolon)).trans ?_, readStmt_finish
      (.instruction ⟨t.line, u.line⟩ Keyword.return.spelling [e']) ⟨t.line, u.line⟩ ?_⟩
    · simp only [State.feedEnd, hu, finish_with]
    · simp only [Stmt.bare, Expr.bareAll, hbare]
  · obtain rfl := List.length_eq_zero_iff.1 hzero
    have hls : (Stmt.instruction span k.spelling []).lexemes =
        [.keyword k, .symbol .semicolon] := by
      simp [Stmt.lexemes, Expr.lexemesAll, Lexeme.separated]
    rw [hls]
    refine .cons fun t ht => ⟨{ st with stack := stack, mode := .jump t.line k }, ?_, ?_⟩
    · rcases hk with rfl | rfl <;> (simp only [State.feed, State.feedStatement, ht]; rfl)
    refine .single fun u hu => ⟨_, by simp only [State.feed, hu, finish_with]; rfl, ?_⟩
    exact readStmt_finish _ ⟨t.line, u.line⟩ rfl

/-- A construct that starts with a condition in round brackets. -/
structure IsCondition (k : Keyword) (outer : Nat → Frame) (inner : Nat → Expr → Frame) : Prop where
  feedStatement_eq : ∀ (st : State) (t : Token), t.lexeme = .keyword k →
    st.feedStatement t = st.goOn st.stack (.opening (outer t.line))
  floor_eq : ∀ line, (outer line).floor = 0
  feedEnd_eq : ∀ (st : State) (line : Nat) (stack : List Frame) (e : Expr) (t : Token),
    t.lexeme = .symbol .roundRight →
      st.feedEnd (outer line :: stack) e t = st.goOn (inner line e :: stack) .statement

lemma isCondition_while : IsCondition .while .whileCondition .whileBody :=
  ⟨fun _ _ ht => by simp only [State.feedStatement, ht], fun _ => rfl,
    fun _ _ _ _ _ ht => by simp only [State.feedEnd, ht]⟩

lemma isCondition_if : IsCondition .if .ifCondition .thenBranch :=
  ⟨fun _ _ ht => by simp only [State.feedStatement, ht], fun _ => rfl,
    fun _ _ _ _ _ ht => by simp only [State.feedEnd, ht]⟩

lemma reaches_condition {k : Keyword} {outer : Nat → Frame} {inner : Nat → Expr → Frame}
    (h : IsCondition k outer inner) {condition : Expr} (hc : condition.Normal) (st : State)
    (stack : List Frame) :
    Reaches { st with stack, mode := .statement }
      (.keyword k :: .symbol .roundLeft :: condition.lexemes ++ [.symbol .roundRight]) fun after =>
      ∃ line condition', condition'.bare = condition.bare ∧
        after = { st with stack := inner line condition' :: stack, mode := .statement } := by
  refine .cons fun t ht => ⟨_, h.feedStatement_eq _ t ht, ?_⟩
  refine .cons fun u hu => ⟨_, by simp only [State.feed, hu]; rfl, ?_⟩
  have hzero : floor (outer t.line :: stack) = 0 := h.floor_eq t.line
  refine (reads_of_normal condition hc st (outer t.line :: stack) (by omega)).append
    fun after hafter => .single fun v hv => ?_
  obtain ⟨stack', mode, condition', hbare, hfeed⟩ := hafter.feed_end hzero
  rw [hfeed v (hv ▸ by rintro s ⟨⟩; decide), h.feedEnd_eq _ _ _ _ _ hv]
  exact ⟨_, rfl, t.line, condition', hbare, rfl⟩

lemma reads_whileLoop {span : Span} {condition : Expr} {body : Stmt} (hc : condition.Normal)
    (hbody : ReadsStmt body) : ReadsStmt (.whileLoop span condition body) := by
  intro st stack
  have hls : (Stmt.whileLoop span condition body).lexemes =
      (.keyword .while :: .symbol .roundLeft :: condition.lexemes ++ [.symbol .roundRight]) ++
        body.lexemes := by
    simp [Stmt.lexemes]
  rw [hls]
  refine (reaches_condition isCondition_while hc st stack).append fun after hafter => ?_
  obtain ⟨line, condition', hbare, rfl⟩ := hafter
  refine (hbody st (.whileBody line condition' :: stack)).imp fun after hafter => ?_
  obtain ⟨body', bodySpan, hbare', hsettle, hclosed⟩ := hafter
  refine ⟨.whileLoop ⟨line, bodySpan.last⟩ condition' body', ⟨line, bodySpan.last⟩, ?_, hsettle,
    hclosed⟩
  rw [Stmt.bare, Stmt.bare, hbare, hbare']

lemma reads_ifThen {span : Span} {condition : Expr} {yes : Stmt} (hc : condition.Normal)
    (hyes : ReadsStmt yes) : ReadsStmt (.ifThen span condition yes) := by
  intro st stack
  have hls : (Stmt.ifThen span condition yes).lexemes =
      (.keyword .if :: .symbol .roundLeft :: condition.lexemes ++ [.symbol .roundRight]) ++
        yes.lexemes := by
    simp [Stmt.lexemes]
  rw [hls]
  refine (reaches_condition isCondition_if hc st stack).append fun after hafter => ?_
  obtain ⟨line, condition', hbare, rfl⟩ := hafter
  refine (hyes st (.thenBranch line condition' :: stack)).imp fun after hafter => ?_
  obtain ⟨yes', yesSpan, hbare', hsettle, -⟩ := hafter
  refine ⟨.ifThen ⟨line, yesSpan.last⟩ condition' yes', ⟨line, yesSpan.last⟩, ?_, hsettle,
    fun hclosed => nomatch hclosed⟩
  rw [Stmt.bare, Stmt.bare, hbare, hbare']

/-- The first branch ends before `else`, because no choice inside it is open. -/
lemma reads_ifElse {span : Span} {condition : Expr} {yes no : Stmt} (hc : condition.Normal)
    (hyes : ReadsStmt yes) (hclosed : yes.endsOpen = false) (hno : ReadsStmt no) :
    ReadsStmt (.ifElse span condition yes no) := by
  intro st stack
  have hls : (Stmt.ifElse span condition yes no).lexemes =
      (.keyword .if :: .symbol .roundLeft :: condition.lexemes ++ [.symbol .roundRight]) ++
        (yes.lexemes ++ .keyword .else :: no.lexemes) := by
    simp [Stmt.lexemes]
  rw [hls]
  refine (reaches_condition isCondition_if hc st stack).append fun after hafter => ?_
  obtain ⟨line, condition', hbare, rfl⟩ := hafter
  refine (hyes st (.thenBranch line condition' :: stack)).append
    fun after hafter => .cons fun t ht => ?_
  obtain ⟨yes', yesSpan, hbareYes, -, hfinish⟩ := hafter
  obtain rfl := hfinish hclosed
  refine ⟨{ st with stack := .elseBranch line condition' yes' :: stack, mode := .statement }, ?_, ?_⟩
  · simp only [State.feed, State.finish, ht]
    rfl
  refine (hno st (.elseBranch line condition' yes' :: stack)).imp fun after hafter => ?_
  obtain ⟨no', noSpan, hbareNo, hsettle, hopen⟩ := hafter
  refine ⟨.ifElse ⟨line, noSpan.last⟩ condition' yes' no', ⟨line, noSpan.last⟩, ?_, hsettle, hopen⟩
  rw [Stmt.bare, Stmt.bare, hbare, hbareYes, hbareNo]

/-- A lexeme that starts a statement. -/
inductive StartsStmt : Lexeme → Prop
  | name (id : String) : StartsStmt (.name id)
  | block : StartsStmt (.symbol .curlyLeft)
  | keyword {k : Keyword} (h : k ≠ .else) : StartsStmt (.keyword k)

lemma StartsStmt.endsExpr {l : Lexeme} (h : StartsStmt l) : EndsExpr l := by
  rintro s rfl
  cases h
  decide

lemma StartsStmt.ne_else {l : Lexeme} (h : StartsStmt l) : l ≠ .keyword .else := by
  rintro rfl
  cases h with
  | keyword h => exact h rfl

lemma startsStmt_of_target {e : Expr} (h : e.IsTarget) :
    ∃ l ls, e.lexemes = l :: ls ∧ StartsStmt l := by
  cases e with
  | name _ id | element _ id _ _ _ => exact ⟨_, _, rfl, .name id⟩
  | _ => exact h.elim

lemma startsStmt_of_normal {s : Stmt} (h : s.Normal) :
    ∃ l ls, s.lexemes = l :: ls ∧ StartsStmt l := by
  cases s with
  | block _ _ => exact ⟨_, _, rfl, .block⟩
  | assign _ target _ =>
    obtain ⟨l, ls, hls, hl⟩ := startsStmt_of_target h.1
    exact ⟨l, _, by rw [Stmt.lexemes, hls]; rfl, hl⟩
  | update _ _ target _ =>
    obtain ⟨l, ls, hls, hl⟩ := startsStmt_of_target h.2.1
    exact ⟨l, _, by rw [Stmt.lexemes, hls]; rfl, hl⟩
  | instruction _ _ _ =>
    obtain ⟨⟨rfl, -⟩ | ⟨rfl, -⟩ | ⟨⟨k, hk, rfl⟩, -⟩, -⟩ := h
    · exact ⟨_, _, rfl, .keyword (by decide)⟩
    · exact ⟨_, _, rfl, .keyword (by decide)⟩
    · refine ⟨.keyword k, _, by rw [Stmt.lexemes, Lexeme.ofWordName_spelling]; rfl, .keyword ?_⟩
      rcases hk with rfl | rfl <;> decide
  | whileLoop _ _ _ | forLoop _ _ _ _ _ | ifThen _ _ _ | ifElse _ _ _ _ =>
    exact ⟨_, _, rfl, .keyword (by decide)⟩
  | expr _ => exact h.elim

/-- The range of a `for` loop is complete only when its body starts. -/
lemma reads_forLoop {span idSpan rangeSpan : Span} {id : String} {start stop : Expr} {body : Stmt}
    (hstart : start.Normal) (hstop : stop.Normal) (hn : body.Normal) (hbody : ReadsStmt body) :
    ReadsStmt (.forLoop span id idSpan (.range rangeSpan start stop) body) := by
  intro st stack
  have hls : (Stmt.forLoop span id idSpan (.range rangeSpan start stop) body).lexemes =
      .keyword .for :: .name id :: .symbol .assign ::
        (start.lexemes ++ .symbol .colon :: (stop.lexemes ++ body.lexemes)) := by
    simp [Stmt.lexemes, Expr.lexemes]
  rw [hls]
  refine .cons fun t ht => ⟨_, by simp only [State.feed, State.feedStatement, ht]; rfl, ?_⟩
  refine .cons fun u hu => ⟨_, by simp only [State.feed, hu]; rfl, ?_⟩
  refine .cons fun v hv => ⟨_, by simp only [State.feed, hv]; rfl, ?_⟩
  refine (reads_of_normal start hstart st (.rangeStart t.line id :: stack) (Nat.zero_le _)).append
    fun after hafter => .cons fun w hw => ?_
  obtain ⟨stack', mode, start', hbareStart, hfeed⟩ := hafter.feed_end rfl
  rw [hfeed w (hw ▸ by rintro s ⟨⟩; decide)]
  refine ⟨_, by simp only [State.feedEnd, hw]; rfl, ?_⟩
  refine (reads_of_normal stop hstop st (.rangeStop t.line id start' :: stack)
    (Nat.zero_le _)).append fun after hafter => ?_
  obtain ⟨stack₂, mode₂, stop', hbareStop, hfeed₂⟩ := hafter.feed_end rfl
  let range : Expr := .range ⟨start'.span.first, stop'.span.last⟩ start' stop'
  obtain ⟨l, ls, hbodyls, hl⟩ := startsStmt_of_normal hn
  have hread := hbody st (.forBody t.line id range :: stack)
  rw [hbodyls] at hread ⊢
  refine Reaches.imp (.of_first (fun x hx => ?_) hread) fun after hafter => ?_
  · rw [hfeed₂ x (hx ▸ hl.endsExpr)]
    exact feedStatement_with { st with stack := .forBody t.line id range :: stack, mode := .statement }
      mode₂ x
  · obtain ⟨body', bodySpan, hbare, hsettle, hclosed⟩ := hafter
    refine ⟨.forLoop ⟨t.line, bodySpan.last⟩ id ⟨t.line, bodySpan.last⟩ range body',
      ⟨t.line, bodySpan.last⟩, ?_, hsettle, hclosed⟩
    simp only [range, Stmt.bare, Expr.bare, hbareStart, hbareStop, hbare]

/-- A place that holds a list of statements: the script or a block. -/
structure IsStmtList (place : Option Nat → List Stmt → State) : Prop where
  mode_eq : ∀ first body, (place first body).mode = .statement
  finish_eq : ∀ first body s span, (place first body).finish true s span (place first body).stack =
    place (some (first.getD span.first)) (s :: body)

lemma reaches_stmts {place : Option Nat → List Stmt → State} (hp : IsStmtList place)
    {ss : List Stmt} (hn : Stmt.NormalAll ss) (hss : ∀ s ∈ ss, ReadsStmt s) (first : Option Nat)
    (body : List Stmt) :
    Reaches (place first body) (Stmt.lexemesAll ss) fun after =>
      ∃ first' ss', Stmt.bareAll ss' = Stmt.bareAll ss ∧
        after.settle = place first' (ss'.reverse ++ body) := by
  induction ss generalizing first body with
  | nil => exact .nil ⟨first, [], rfl, settle_of_statement (hp.mode_eq first body)⟩
  | cons s ss ih =>
    have hplace : place first body =
        { place first body with stack := (place first body).stack, mode := .statement } := by
      rw [← hp.mode_eq first body]
    have hread := hss s List.mem_cons_self (place first body) (place first body).stack
    rw [← hplace] at hread
    refine hread.append fun after hafter => ?_
    obtain ⟨s', span, hbare, hsettle, -⟩ := hafter
    rw [hp.finish_eq] at hsettle
    cases ss with
    | nil =>
      refine .nil ⟨_, [s'], ?_, hsettle⟩
      rw [Stmt.bareAll, Stmt.bareAll, hbare]
      rfl
    | cons s₂ ss =>
      -- The next statement does not start with `else`, so this one is complete.
      obtain ⟨l, ls, hls, hl⟩ := startsStmt_of_normal hn.2.1
      have hrest := ih hn.2 (fun x hx => hss x (List.mem_cons_of_mem s hx))
        (some (first.getD span.first)) (s' :: body)
      rw [← hsettle] at hrest
      rw [Stmt.lexemesAll, hls, List.cons_append] at hrest ⊢
      refine Reaches.imp (.of_first (fun t ht => feed_settle after (ht ▸ hl.ne_else)) hrest)
        fun after' hafter' => ?_
      obtain ⟨first', ss', hbares, hsettle'⟩ := hafter'
      refine ⟨first', s' :: ss', ?_, ?_⟩
      · rw [Stmt.bareAll, Stmt.bareAll, hbare, hbares]
      · rw [hsettle', List.reverse_cons, List.append_assoc]
        rfl

lemma reads_block {span : Span} {body : List Stmt} (hn : Stmt.NormalAll body)
    (hbody : ∀ s ∈ body, ReadsStmt s) : ReadsStmt (.block span body) := by
  intro st stack
  refine .cons fun t ht => ⟨_, by simp only [State.feed, State.feedStatement, ht]; rfl, ?_⟩
  have hlist : IsStmtList fun first body =>
      { st with stack := .block t.line first body :: stack, mode := .statement } :=
    ⟨fun _ _ => rfl, fun _ _ _ _ => rfl⟩
  refine (reaches_stmts hlist hn hbody none []).append fun after hafter => .single fun u hu => ?_
  obtain ⟨first', ss', hbares, hsettle⟩ := hafter
  have hfeed : after.feed u = some (st.finish false
      (.block ⟨first'.getD u.line, u.line⟩ (ss'.reverse ++ []).reverse) ⟨t.line, u.line⟩ stack) := by
    rw [feed_settle after (by rw [hu]; rintro ⟨⟩), hsettle]
    simp only [State.feed, State.feedStatement, hu, finish_with]
  refine ⟨_, hfeed, readStmt_finish _ ⟨t.line, u.line⟩ ?_⟩
  rw [List.append_nil, List.reverse_reverse, Stmt.bare, Stmt.bare, hbares]

mutual

/-- Every statement in normal form is read as it stands. -/
lemma reads_of_normalStmt : ∀ s : Stmt, s.Normal → ReadsStmt s
  | .block _ body, h => reads_block h (reads_of_normalStmts body h)
  | .assign _ _ _, h => reads_assign h
  | .update _ _ _ _, h => reads_update h
  | .instruction _ _ _, h => reads_instruction h
  | .whileLoop _ _ body, h => reads_whileLoop h.1 (reads_of_normalStmt body h.2)
  | .forLoop _ _ _ (.range _ _ _) body, h =>
    reads_forLoop h.1.1 h.1.2 h.2 (reads_of_normalStmt body h.2)
  | .ifThen _ _ yes, h => reads_ifThen h.1 (reads_of_normalStmt yes h.2)
  | .ifElse _ _ yes no, h =>
    reads_ifElse h.1 (reads_of_normalStmt yes h.2.1) h.2.2.1 (reads_of_normalStmt no h.2.2.2)
  | .expr _, h => h.elim

lemma reads_of_normalStmts : ∀ ss : List Stmt, Stmt.NormalAll ss → ∀ s ∈ ss, ReadsStmt s
  | [], _ => fun _ h => nomatch h
  | s :: ss, h =>
    List.forall_mem_cons.2 ⟨reads_of_normalStmt s h.1, reads_of_normalStmts ss h.2⟩

end

/-- A script in normal form is parsed to itself, lines apart. -/
theorem script_of_normal {a : Stmt} (ha : a.NormalScript) {ts : List Token}
    (hts : a.scriptLexemes = ts.map Token.lexeme) (line : Nat) :
    ∃ s, (ofScan ⟨ts, .finished, line⟩).script = .ok s ∧ s.bare = a.bare := by
  cases a with
  | block span body =>
    have hlist : IsStmtList fun first body => { first, body } :=
      ⟨fun _ _ => rfl, fun _ _ _ _ => rfl⟩
    obtain ⟨st, hread, first', ss', hbares, hsettle⟩ :=
      reaches_stmts hlist ha (reads_of_normalStmts body ha) none [] ts hts.symm
    have hscript : st.script? line = some (.block ⟨first'.getD line, line⟩ ss') := by
      rw [State.script?_eq, hsettle, List.append_nil]
      simp only [List.reverse_reverse]
    refine ⟨.block ⟨first'.getD line, line⟩ ss', ?_, ?_⟩
    · have hinit : ({} : State).feedAll ts = .ok st := hread
      simp only [ofScan, hinit, hscript]
    · rw [Stmt.bare, Stmt.bare, hbares]
  | _ => exact ha.elim

/-- The parser accepts exactly the scripts in normal form, and builds their tree. -/
theorem script_ofScan_iff (ts : List Token) (line : Nat) (a : Stmt) :
    (∃ s, (ofScan ⟨ts, .finished, line⟩).script = .ok s ∧ s.bare = a.bare) ↔
      a.scriptLexemes = ts.map Token.lexeme ∧ a.NormalScript := by
  constructor
  · rintro ⟨s, hs, hbare⟩
    obtain ⟨hnormal, hls⟩ := normal_of_script hs
    rw [← Stmt.scriptLexemes_bare, hbare, Stmt.scriptLexemes_bare] at hls
    rw [← Stmt.normalScript_bare, hbare, Stmt.normalScript_bare] at hnormal
    exact ⟨hls, hnormal⟩
  · rintro ⟨hls, hnormal⟩
    exact script_of_normal hnormal hls line

end Parse
end MatScript
