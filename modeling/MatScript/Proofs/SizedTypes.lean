import MatScript.Proofs.JoinedShapes

/-! The dimensions that a check comes to. A vector that can be written has items, and all other types
are made of those of vectors, or have unknown dimensions or none. So no call that the check of a
script makes returns or finds a type with a known dimension below one, and dotted operators join the
shapes of all operands that come up. -/
namespace MatScript

open Typing

namespace Typing

/-! ## Checks that yield sized types -/

/-- Every type of the table is sized. -/
def State.Sized (st : State) : Prop := st.table.All fun _ t => t.Sized

section

variable {α β : Type} {Q : α → Prop} {Q' : β → Prop} {p : Policy}

/-- The checks that, where the types of the table are sized, come to their end only with a result as
`Q` says and with such a table. -/
def Yields (Q : α → Prop) (c : Check α) : Prop :=
  ∀ st a st', st.Sized → c st = .ok a st' → Q a ∧ st'.Sized

lemma yields_pure {a : α} (ha : Q a) : Yields Q (pure a) := by
  intro st b st' hst h
  cases h
  exact ⟨ha, hst⟩

lemma yields_throw (e : Stop) : Yields Q (throw e) := by
  intro st a st' _ h
  cases h

lemma Yields.bind {c : Check α} {f : α → Check β} (hc : Yields Q c)
    (hf : ∀ a, Q a → Yields Q' (f a)) : Yields Q' (c >>= f) := by
  intro st b st' hst h
  obtain ⟨a, st₁, h₁, h₂⟩ := bind_eq_ok.mp h
  obtain ⟨ha, hst₁⟩ := hc _ _ _ hst h₁
  exact hf a ha _ _ _ hst₁ h₂

lemma Yields.ite {c d : Check α} (b : Prop) [Decidable b] (hc : Yields Q c) (hd : Yields Q d) :
    Yields Q (if b then c else d) := by
  split
  · exact hc
  · exact hd

lemma Yields.discard {c : Check α} (hc : Yields Q c) : Yields (fun _ => True) (discard c) :=
  hc.bind fun _ _ => yields_pure trivial

/-- A check that leaves the table as it is. -/
lemma KeepsTable.yields {c : Check α} (hc : KeepsTable c) : Yields (fun _ => True) c := by
  intro st a st' hst h
  refine ⟨trivial, ?_⟩
  unfold State.Sized
  rw [hc _ _ _ h]
  exact hst

lemma yields_setType (id : String) {t : Ty} (ht : t.Sized) :
    Yields (fun _ => True) (setType id t) := by
  intro st u st' hst h
  obtain rfl := setType_eq_ok.mp h
  exact ⟨trivial, Scopes.All.set hst ht⟩

lemma Yields.within {name : String} {body : Check Unit} (hbody : Yields (fun _ => True) body) :
    Yields (fun _ => True) (within name body) := by
  intro st u st' hst h
  obtain ⟨st₁, h₁, rfl⟩ := within_eq_ok.mp h
  have hpush : (st.push name).Sized := Scopes.All.push hst name
  exact ⟨trivial, Scopes.All.pop (hbody _ _ _ hpush h₁).2⟩

end

/-! The rules of the checker, one by one. -/

section

variable {p : Policy} {t : Ty} {ts : List Ty}

lemma sized_of_scalar (h : t.shape = []) : t.Sized := by
  unfold Ty.Sized
  rw [h]
  simp

lemma sized_of_result? {op : ScalarOperator} (h : op.result? ts = some t) : t.Sized := by
  rcases Run.scalars_of_result? h with ⟨_, _, -, -, rfl⟩ | ⟨_, _, _, -, -, rfl⟩
  · exact sized_of_scalar rfl
  · exact sized_of_scalar rfl

lemma sized_mergeDim {x y : Option Int} (hx : ∀ n ∈ x, 1 ≤ n) (hy : ∀ n ∈ y, 1 ≤ n) :
    ∀ n ∈ mergeDim x y, 1 ≤ n := by
  cases x with
  | none => exact hy
  | some m =>
    rw [mergeDim]
    split
    · exact hy
    · exact hx

/-- A check whose result does not matter, and then no type. -/
lemma Yields.noType {α : Type} {Q : α → Prop} {c : Check α} (hc : Yields Q c) :
    Yields Ty.Sized (do let _ ← c; return .none) :=
  hc.bind fun _ _ => yields_pure (sized_of_scalar rfl)

lemma yields_reject (span : Span) (message : String) : Yields Ty.Sized (reject p span message) :=
  (keepsTable_report span message).yields.noType

lemma yields_require (span : Span) (t required : Ty) (message : String) :
    Yields (fun _ => True) (require p span t required message) :=
  (keepsTable_require span t required message).yields

/-- A vector has as many items as types, whichever of these it goes on with. -/
lemma yields_vectorType (span : Span) (hne : ts ≠ []) (hts : ∀ t ∈ ts, t.Sized) :
    Yields Ty.Sized (vectorType p span ts) := by
  have hlen : (1 : Int) ≤ ts.length := by
    have := List.length_pos_of_ne_nil hne
    omega
  unfold vectorType
  cases hd : distinct ts with
  | nil =>
    obtain ⟨u, hu⟩ := List.exists_mem_of_ne_nil ts hne
    have hmem := mem_distinct.2 hu
    rw [hd] at hmem
    cases hmem
  | cons u rest =>
    have hall : ∀ v ∈ u :: rest, v.Sized := fun v hv => hts v (mem_distinct.1 (hd ▸ hv))
    have hitem : ((u :: rest).getD (p.pick (u :: rest)) u).Sized := by
      rw [List.getD_eq_getElem?_getD]
      cases hget : (u :: rest)[p.pick (u :: rest)]? with
      | none => exact hall u List.mem_cons_self
      | some v => exact hall v (List.mem_of_getElem? hget)
    have hrest : Yields Ty.Sized (pure (⟨((u :: rest).getD (p.pick (u :: rest)) u).base,
        some (ts.length : Int) :: ((u :: rest).getD (p.pick (u :: rest)) u).shape⟩ : Ty)) := by
      refine yields_pure (List.forall_mem_cons.2 ⟨?_, hitem⟩)
      rintro n ⟨⟩
      exact hlen
    exact .ite _ ((keepsTable_report _ _).yields.bind fun _ _ => hrest) hrest

lemma yields_transposedType (span : Span) (ht : t.Sized) :
    Yields Ty.Sized (transposedType p span t) :=
  .ite _ (yields_reject _ _) (yields_pure fun d hd => ht d (List.mem_reverse.1 hd))

lemma yields_dottedType (span : Span) (symbol : String) (op : ScalarOperator) {a b : Ty}
    (ha : a.Sized) (hb : b.Sized) : Yields Ty.Sized (dottedType p span symbol op a b) := by
  unfold dottedType
  split
  · exact yields_reject _ _
  · refine .ite _ (yields_reject _ _) ?_
    refine (keepsTable_matchDims _ _ _ _ _).yields.bind fun _ _ => yields_pure fun d hd => ?_
    obtain ⟨i, hi, rfl⟩ := List.getElem_of_mem hd
    rw [List.getElem_zipWith]
    exact sized_mergeDim (ha _ (List.getElem_mem _)) (hb _ (List.getElem_mem _))

lemma yields_operatorType (span : Span) (symbol : String) (hts : ∀ t ∈ ts, t.Sized) :
    Yields Ty.Sized (operatorType p span symbol ts) := by
  unfold operatorType
  split
  · next op hop =>
    cases hr : op.result? ts with
    | none => exact yields_reject _ _
    | some t => exact yields_pure (sized_of_result? hr)
  · refine .ite _ (yields_pure (sized_of_scalar rfl)) (.ite _ ?_ ?_)
    · cases ts with
      | nil => exact yields_throw _
      | cons t ts => exact yields_transposedType _ (hts t List.mem_cons_self)
    · split
      · split
        · next a b rest =>
          exact yields_dottedType _ _ _ (hts a (by simp)) (hts b (by simp))
        · exact yields_throw _
      · exact yields_reject _ _

lemma yields_callType (span : Span) (function : String) (ts : List Ty) :
    Yields Ty.Sized (callType p span function ts) := by
  have hunknown : (⟨some .float, List.replicate ts.length none⟩ : Ty).Sized := by
    intro d hd
    rw [List.eq_of_mem_replicate hd]
    simp
  have hrest : Yields Ty.Sized (do
      integerArguments p span function 1 ts
      return (⟨some .float, List.replicate ts.length none⟩ : Ty)) :=
    (keepsTable_integerArguments _ _ _ _).yields.bind fun _ _ => yields_pure hunknown
  exact .ite _ ((keepsTable_report _ _).yields.bind fun _ _ => hrest) hrest

lemma yields_nameType (span : Span) (id : String) : Yields Ty.Sized (nameType p span id) := by
  intro st t st' hst h
  rw [nameType_apply] at h
  cases hid : st.table.get? id with
  | none =>
    rw [hid] at h
    exact yields_reject _ _ _ _ _ hst h
  | some u =>
    rw [hid] at h
    cases h
    exact ⟨hst.get? hid, hst⟩

lemma yields_elementType (span : Span) {array : Ty} (index : Ty) (count : Nat)
    (harray : array.Sized) : Yields Ty.Sized (elementType p span array index count) := by
  refine .ite _ (yields_reject _ _) (.ite _ (yields_reject _ _) (yields_pure fun d hd => ?_))
  exact harray d (List.mem_of_mem_drop hd)

end

end Typing

mutual

/-- An expression that can be written has a sized type. -/
theorem Expr.yields (p : Policy) : (e : Expr) → e.Normal → Yields Ty.Sized (e.check p)
  | .constant _ value, _ => by
    simp only [Expr.check]
    exact yields_pure (sized_of_scalar (by cases value <;> rfl))
  | .vector _ items, h => by
    simp only [Expr.check]
    refine (Expr.yields_all p items h.2).bind fun ts hts => ?_
    exact yields_vectorType _ (hts.1 h.1) hts.2
  | .operator _ _ operands, h => by
    simp only [Expr.check]
    exact (Expr.yields_all p operands h.2).bind fun _ hts => yields_operatorType _ _ hts.2
  | .call _ _ arguments, h => by
    simp only [Expr.check]
    exact (Expr.yields_all p arguments h.2.2).bind fun _ _ => yields_callType _ _ _
  | .name _ _, _ => by simpa only [Expr.check] using yields_nameType _ _
  | .element _ _ _ indices _, h => by
    simp only [Expr.check]
    refine (yields_nameType _ _).bind fun array harray => ?_
    refine (Expr.yields_all p indices h.2).bind fun ts hts => ?_
    refine (yields_vectorType _ (hts.1 h.1) hts.2).bind fun _ _ => ?_
    exact yields_elementType _ _ _ harray
  | .range _ _ _, h | .gap _ _, h => h.elim

theorem Expr.yields_all (p : Policy) : (es : List Expr) → Expr.NormalAll es →
    Yields (fun ts => (es ≠ [] → ts ≠ []) ∧ ∀ t ∈ ts, t.Sized) (Expr.checkAll p es)
  | [], _ => by
    simp only [Expr.checkAll]
    exact yields_pure ⟨fun hne => (hne rfl).elim, by simp⟩
  | e :: es, h => by
    simp only [Expr.checkAll]
    refine (e.yields p h.1).bind fun t ht => (Expr.yields_all p es h.2).bind fun ts hts => ?_
    exact yields_pure ⟨fun _ => List.cons_ne_nil t ts, List.forall_mem_cons.2 ⟨ht, hts.2⟩⟩

end

section

variable {p : Policy}

lemma Expr.yields_range {e : Expr} (h : e.NormalRange) : Yields Ty.Sized (e.check p) := by
  cases e with
  | range _ start stop =>
    simp only [Expr.check]
    refine (start.yields p h.1).bind fun _ _ => (yields_require _ _ _ _).bind fun _ _ => ?_
    refine (stop.yields p h.2).bind fun _ _ => (yields_require _ _ _ _).bind fun _ _ => ?_
    exact yields_pure (sized_of_scalar rfl)
  | _ => exact h.elim

lemma yields_checkAssign (span : Span) {target value : Expr} (ht : target.Normal)
    (hv : value.Normal) : Yields (fun _ => True) (checkAssign p span target value) := by
  unfold checkAssign
  split
  · exact (value.yields p hv).bind fun _ hu => yields_setType _ hu
  · refine (Expr.yields p _ ht).bind fun _ _ => (value.yields p hv).bind fun _ _ => ?_
    exact yields_require _ _ _ _
  · exact yields_pure trivial

lemma yields_checkUpdate (span : Span) (symbol : String) {target value : Expr} (ht : target.Normal)
    (hv : value.Normal) : Yields (fun _ => True) (checkUpdate p span symbol target value) := by
  unfold checkUpdate
  refine (target.yields p ht).bind fun _ _ => (value.yields p hv).bind fun _ _ => ?_
  dsimp only
  split
  · exact yields_throw _
  · split
    · exact (keepsTable_report _ _).yields
    · next hr =>
      split
      · exact yields_setType _ (sized_of_result? hr)
      · exact yields_require _ _ _ _
      · exact yields_pure trivial

/-- A condition, and what is checked after it. -/
lemma yields_condition {α : Type} {Q : α → Prop} {condition : Expr} (h : condition.Normal)
    (span : Span) (message : String) {rest : Check α} (hrest : Yields Q rest) :
    Yields Q (do require p span (← condition.check p) .bool message; rest) :=
  (condition.yields p h).bind fun _ _ => (yields_require _ _ _ _).bind fun _ _ => hrest

end

mutual

/-- A statement that can be written leads from a table of sized types to another one. -/
theorem Stmt.yields (p : Policy) : (s : Stmt) → s.Normal → Yields Ty.Sized (s.check p)
  | .block _ body, h => by
    simp only [Stmt.check]
    exact (Stmt.yields_all p body h).within.noType
  | .assign _ _ _, h => by
    simp only [Stmt.check]
    exact (yields_checkAssign _ h.2.1 h.2.2).noType
  | .update _ _ _ _, h => by
    simp only [Stmt.check]
    exact (yields_checkUpdate _ _ h.2.2.1 h.2.2.2).noType
  | .instruction _ _ _, _ => by
    simp only [Stmt.check]
    exact (keepsTable_checkInstruction _ _ _).yields.noType
  | .whileLoop _ _ body, h => by
    simp only [Stmt.check]
    refine yields_condition h.1 _ _ ?_
    exact (body.yields p h.2).discard.within.noType
  | .forLoop _ _ _ _ body, h => by
    simp only [Stmt.check]
    refine (Expr.yields_range h.1).bind fun _ ht => (yields_setType _ ht).bind fun _ _ => ?_
    exact (body.yields p h.2).discard.within.noType
  | .ifThen _ _ yes, h => by
    simp only [Stmt.check]
    refine yields_condition h.1 _ _ ?_
    exact (yes.yields p h.2).discard.within.noType
  | .ifElse _ _ yes no, h => by
    simp only [Stmt.check]
    refine yields_condition h.1 _ _ ((yes.yields p h.2.1).discard.within.bind fun _ _ => ?_)
    exact (no.yields p h.2.2.2).discard.within.noType
  | .expr _, h => h.elim

theorem Stmt.yields_all (p : Policy) : (ss : List Stmt) → Stmt.NormalAll ss →
    Yields (fun _ => True) (Stmt.checkAll p ss)
  | [], _ => by
    simp only [Stmt.checkAll]
    exact yields_pure trivial
  | s :: ss, h => by
    simp only [Stmt.checkAll]
    exact (s.yields p h.1).discard.bind fun _ _ => Stmt.yields_all p ss h.2

end

/-! ## The calls of a check -/

namespace Part

/-- What a checker does with the part. -/
def checkBy (p : Policy) : Part → Check Ty
  | expr e => e.check p
  | stmt s => s.check p

/-- The parts that can be written. -/
def Normal : Part → Prop
  | expr e => e.Normal ∨ e.NormalRange
  | stmt s => s.Normal

variable {part : Part}

lemma yields (p : Policy) (h : part.Normal) : Yields Ty.Sized (part.checkBy p) := by
  cases part with
  | expr e => exact h.elim (e.yields p) Expr.yields_range
  | stmt s => exact s.yields p h

lemma mirrors (pick : List Ty → Nat) (h : part.Normal) :
    Mirrors (fun _ => True) (part.checkBy (.collectingBy pick)) (part.checkBy (.raisingBy pick)) := by
  cases part with
  | expr e => exact h.elim (e.mirrors pick pick) Expr.mirrors_range
  | stmt s => exact s.mirrors pick pick h

end Part

namespace Typing

/-- A part of a script whose type is asked for, and the state of the checker at that time. -/
structure Call where
  state : State
  part : Part

namespace Call

/-- How the call ends. -/
def result (p : Policy) (c : Call) : EStateM.Result Stop State Ty := c.part.checkBy p c.state

/-- The calls that come after a check, if it comes to its end. -/
def after {α : Type} (c : Check α) (st : State) (next : α → State → List Call) : List Call :=
  match c st with
  | .ok a st => next a st
  | .error _ _ => []

/-- The calls for parts that are checked one after another. -/
def inTurn (p : Policy) (st : State) : List Part → List Call
  | [] => []
  | part :: rest => ⟨st, part⟩ :: after (part.checkBy p) st fun _ st => inTurn p st rest

/-- The calls that the check of an expression makes itself. -/
def ofExpr (p : Policy) (st : State) : Expr → List Call
  | .range span start stop =>
    ⟨st, .expr start⟩ ::
      after (do require p span (← start.check p) .int "First element in range has to be a integer")
        st fun _ st => [⟨st, .expr stop⟩]
  | e => inTurn p st (e.children.map .expr)

/-- The calls that the check of a statement makes itself. A name that is assigned to is not asked
for its type. -/
def ofStmt (p : Policy) (st : State) : Stmt → List Call
  | .block _ body => inTurn p (st.push "program") (body.map .stmt)
  | .assign _ target value =>
    match target with
    | .name _ _ => [⟨st, .expr value⟩]
    | .element .. => inTurn p st [.expr target, .expr value]
    | _ => []
  | .update _ _ target value => inTurn p st [.expr target, .expr value]
  | .instruction span name arguments =>
    after (checkInstruction p span name []) st fun _ st => inTurn p st (arguments.map .expr)
  | .whileLoop span condition body =>
    ⟨st, .expr condition⟩ ::
      after (do require p span (← condition.check p) .bool
                  "Condition in while statement has to evaluate to boolean")
        st fun _ st => [⟨st.push "loop", .stmt body⟩]
  | .forLoop _ id _ range body =>
    ⟨st, .expr range⟩ ::
      after (range.check p) st fun t st => [⟨(st.set id t).push "loop", .stmt body⟩]
  | .ifThen span condition yes =>
    ⟨st, .expr condition⟩ ::
      after (do require p span (← condition.check p) .bool
                  "Condition in if statement has to evaluate to boolean")
        st fun _ st => [⟨st.push "then", .stmt yes⟩]
  | .ifElse span condition yes no =>
    ⟨st, .expr condition⟩ ::
      after (do require p span (← condition.check p) .bool
                  "Condition in if statement has to evaluate to boolean")
        st fun _ st => ⟨st.push "then", .stmt yes⟩ ::
          after (yes.check p) (st.push "then") fun _ st => [⟨st.pop.push "else", .stmt no⟩]
  | .expr e => [⟨st, .expr e⟩]

/-- The calls that a call makes itself. -/
def inner (p : Policy) (c : Call) : List Call :=
  match c.part with
  | .expr e => ofExpr p c.state e
  | .stmt s => ofStmt p c.state s

/-- One call makes the other, itself or through calls in between. -/
def Reaches (p : Policy) : Call → Call → Prop := Relation.ReflTransGen fun c d => d ∈ c.inner p

/-- The part can be written, and the types of the table are sized. -/
structure Fit (c : Call) : Prop where
  part : c.part.Normal
  state : c.state.Sized

variable {α : Type} {p : Policy} {st : State}

/-- What comes after a check starts from what it yields. -/
lemma fit_after {Q : α → Prop} {c : Check α} {next : α → State → List Call} (hc : Yields Q c)
    (hst : st.Sized) (hnext : ∀ a st, Q a → st.Sized → ∀ d ∈ next a st, d.Fit) :
    ∀ d ∈ after c st next, d.Fit := by
  unfold after
  cases h : c st with
  | ok a st' =>
    obtain ⟨ha, hst'⟩ := hc _ _ _ hst h
    exact hnext a st' ha hst'
  | error e st' => simp

lemma fit_inTurn {parts : List Part} (hparts : ∀ part ∈ parts, part.Normal) (hst : st.Sized) :
    ∀ d ∈ inTurn p st parts, d.Fit := by
  induction parts generalizing st with
  | nil => simp [inTurn]
  | cons part rest ih =>
    rw [List.forall_mem_cons] at hparts
    refine List.forall_mem_cons.2 ⟨⟨hparts.1, hst⟩, ?_⟩
    exact fit_after (part.yields p hparts.1) hst fun _ _ _ hst' => ih hparts.2 hst'

lemma fit_exprs {es : List Expr} (h : Expr.NormalAll es) (hst : st.Sized) :
    ∀ d ∈ inTurn p st (es.map .expr), d.Fit :=
  fit_inTurn (List.forall_mem_map.2 fun e he => .inl (Expr.normalAll_iff.1 h e he)) hst

lemma fit_pair {e f : Expr} (he : e.Normal) (hf : f.Normal) (hst : st.Sized) :
    ∀ d ∈ inTurn p st [.expr e, .expr f], d.Fit := by
  have hpair : Expr.NormalAll [e, f] := ⟨he, hf, trivial⟩
  exact fit_exprs hpair hst

/-- A condition, and the calls after it. -/
lemma fit_condition {condition : Expr} (hc : condition.Normal) (hst : st.Sized) {span : Span}
    {required : Ty} {message : String} {next : State → List Call}
    (hnext : ∀ st, st.Sized → ∀ d ∈ next st, d.Fit) :
    ∀ d ∈ ⟨st, .expr condition⟩ ::
      after (do require p span (← condition.check p) required message) st fun _ => next, d.Fit := by
  refine List.forall_mem_cons.2 ⟨⟨.inl hc, hst⟩, ?_⟩
  refine fit_after ((condition.yields p hc).bind fun _ _ => yields_require _ _ _ _) hst ?_
  exact fun _ st' _ hst' => hnext st' hst'

lemma fit_body {name : String} {s : Stmt} (hs : s.Normal) (hst : st.Sized) :
    Fit ⟨st.push name, .stmt s⟩ := ⟨hs, Scopes.All.push hst name⟩

lemma fit_ofExpr {e : Expr} (h : e.Normal ∨ e.NormalRange) (hst : st.Sized) :
    ∀ d ∈ ofExpr p st e, d.Fit := by
  cases e with
  | range _ start stop =>
    have hrange := h.resolve_left id
    refine fit_condition hrange.1 hst fun st' hst' => ?_
    exact List.forall_mem_singleton.2 ⟨.inl hrange.2, hst'⟩
  | constant _ _ | name _ _ => simp [ofExpr, Expr.children, inTurn]
  | vector _ items => exact fit_exprs (h.resolve_right id).2 hst
  | operator _ _ operands => exact fit_exprs (h.resolve_right id).2 hst
  | call _ _ arguments => exact fit_exprs (h.resolve_right id).2.2 hst
  | element _ _ _ indices indexSpan =>
    -- the name and the indices are asked for their types like parts of their own
    have hindices : (Expr.vector indexSpan indices).Normal := h.resolve_right id
    exact fit_pair trivial hindices hst
  | gap _ _ => exact h.elim False.elim False.elim

lemma fit_ofStmt {s : Stmt} (h : s.Normal) (hst : st.Sized) : ∀ d ∈ ofStmt p st s, d.Fit := by
  cases s with
  | block _ body =>
    refine fit_inTurn ?_ (Scopes.All.push hst _)
    exact List.forall_mem_map.2 fun s hs => Stmt.normalAll_iff.1 h s hs
  | assign _ target value =>
    cases target with
    | name _ _ => exact List.forall_mem_singleton.2 ⟨.inl h.2.2, hst⟩
    | element _ _ _ _ _ => exact fit_pair h.2.1 h.2.2 hst
    | _ => exact h.1.elim
  | update _ _ target value => exact fit_pair h.2.2.1 h.2.2.2 hst
  | instruction _ _ arguments =>
    refine fit_after (keepsTable_checkInstruction _ _ _).yields hst fun _ st' _ hst' => ?_
    exact fit_exprs h.2 hst'
  | whileLoop _ condition body =>
    exact fit_condition h.1 hst fun _ hst' => List.forall_mem_singleton.2 (fit_body h.2 hst')
  | forLoop _ id _ range body =>
    refine List.forall_mem_cons.2 ⟨⟨.inr h.1, hst⟩, ?_⟩
    refine fit_after (Expr.yields_range h.1) hst fun t st' ht hst' => ?_
    exact List.forall_mem_singleton.2 (fit_body h.2 (Scopes.All.set hst' ht))
  | ifThen _ condition yes =>
    exact fit_condition h.1 hst fun _ hst' => List.forall_mem_singleton.2 (fit_body h.2 hst')
  | ifElse _ condition yes no =>
    refine fit_condition h.1 hst fun st' hst' => ?_
    refine List.forall_mem_cons.2 ⟨fit_body h.2.1 hst', ?_⟩
    refine fit_after (yes.yields p h.2.1) (Scopes.All.push hst' _) fun _ st₂ _ hst₂ => ?_
    exact List.forall_mem_singleton.2 (fit_body h.2.2.2 (Scopes.All.pop hst₂))
  | expr _ => exact h.elim

/-- What a call makes is fit if the call is. -/
lemma Fit.inner {c d : Call} (h : c.Fit) (hd : d ∈ c.inner p) : d.Fit := by
  obtain ⟨st, part⟩ := c
  cases part with
  | expr e => exact fit_ofExpr h.part h.state d hd
  | stmt s => exact fit_ofStmt h.part h.state d hd

lemma Fit.reaches {c d : Call} (h : c.Fit) (hd : Reaches p c d) : d.Fit := by
  induction hd with
  | refl => exact h
  | tail _ hstep ih => exact ih.inner hstep

/-- A fit call of a collecting check comes to its end. -/
lemma Fit.exists_result {c : Call} (h : c.Fit) (pick : List Ty → Nat) :
    ∃ t st, c.result (.collectingBy pick) = .ok t st := by
  obtain ⟨⟨table, old⟩, part⟩ := c
  obtain ⟨t, table', new, -, hc, -⟩ := Part.mirrors pick h.part table old
  exact ⟨t, _, hc⟩

end Call

end Typing

/-! ## Scripts -/

/-- Dotted operators join dimensions. A collecting check of a script on a new table, whichever of
differing types its vectors go on with, comes to no type with a known dimension below one: each call
that it makes returns a sized type, and all types are sized on the tables before and after it. For
two such types a dotted operator is accepted, that is, adds no fault, in one order exactly if it is
in the other, and with the same type; this is so exactly if the table of the operator has the base
types and the shape of the result joins those of the operands. -/
theorem Script.dimensions_joined {line : Nat} {text : String} {s : Stmt}
    (hp : (Script.parse line text).script = .ok s) (pick : List Ty → Nat) :
    (∀ c, Call.Reaches (.collectingBy pick) ⟨{}, .stmt s⟩ c →
      ∃ t st, c.result (.collectingBy pick) = .ok t st ∧ t.Sized ∧ c.state.Sized ∧ st.Sized) ∧
    ∀ (p : Policy) (span : Span) (symbol : String) (op : ScalarOperator) (a b t : Ty)
      (st : Typing.State), dotted? symbol = some op → a.Sized → b.Sized →
      (dottedType p span symbol op a b st = .ok t st ↔
        dottedType p span symbol op b a st = .ok t st) ∧
      (dottedType p span symbol op a b st = .ok t st ↔
        op.result? [⟨a.base, []⟩, ⟨b.base, []⟩] = some ⟨t.base, []⟩ ∧
          IsJoin a.shape b.shape t.shape) := by
  have hstart : Call.Fit ⟨{}, .stmt s⟩ := ⟨(Parse.normal_of_script hp).1.normal, Scopes.All.empty⟩
  refine ⟨fun c hc => ?_, fun p span symbol op a b t st _ ha hb => ⟨?_, ?_⟩⟩
  · have hfit := hstart.reaches hc
    obtain ⟨t, st, hresult⟩ := hfit.exists_result pick
    obtain ⟨ht, hst⟩ := c.part.yields _ hfit.part _ _ _ hfit.state hresult
    exact ⟨t, st, hresult, ht, hfit.state, hst⟩
  · rw [dottedType_ok_iff_isJoin ha, dottedType_ok_iff_isJoin hb, result?_comm]
    exact and_congr_right fun _ => ⟨IsJoin.comm, IsJoin.comm⟩
  · exact dottedType_ok_iff_isJoin ha

/-- A product with dimensions that only one side knows, and vectors of differing types. -/
def mergingText : String := "a = [[1, 2], [3, 4]] .* zeros(2, 2); b = [a[0], [5, true]];"

/-- The vector of a row of the product and one of differing types. -/
def mixedRows : Expr :=
  let at1 : Span := ⟨1, 1⟩
  let int (k : Int) : Expr := .constant at1 (.int k)
  .vector at1 [.element at1 "a" at1 [int 0] at1,
    .vector at1 [int 5, .constant at1 (.bool true)]]

def mergingScript : Stmt :=
  let at1 : Span := ⟨1, 1⟩
  let int (k : Int) : Expr := .constant at1 (.int k)
  .block at1 [
    .assign at1 (.name at1 "a") (.operator at1 ".*" [
      .vector at1 [.vector at1 [int 1, int 2], .vector at1 [int 3, int 4]],
      .call at1 "zeros" [int 2, int 2]]),
    .assign at1 (.name at1 "b") mixedRows]

/-- The state after the product, whose dimensions are known. -/
def mergedState : Typing.State :=
  ⟨⟨[⟨"program", [("a", ⟨some .float, [some 2, some 2]⟩)]⟩], ⟨"global", []⟩⟩, #[]⟩

theorem dimensions_joined_mergingScript :
    (Script.parse 1 mergingText).script = .ok mergingScript ∧
    Call.Reaches (.collectingBy fun _ => 1) ⟨{}, .stmt mergingScript⟩ ⟨mergedState, .expr mixedRows⟩ ∧
    (∃ st, mixedRows.check (.collectingBy fun _ => 1) mergedState =
        .ok ⟨some .bool, [some 2, some 2]⟩ st ∧ st.faults.size = 2 ∧ st.Sized) ∧
    dotted? ".*" = some .multiply ∧
    dottedType .raising ⟨1, 1⟩ ".*" .multiply ⟨some .float, [none, none]⟩
      ⟨some .int, [some 2, some 2]⟩ {} = .ok ⟨some .float, [some 2, some 2]⟩ {} ∧
    IsJoin [some 2, some 2] [none, none] [some 2, some 2] := by
  have hp : (Script.parse 1 mergingText).script = .ok mergingScript := by cbv
  obtain ⟨hcalls, hdotted⟩ := Script.dimensions_joined hp fun _ => 1
  have hreach : Call.Reaches (.collectingBy fun _ => 1) ⟨{}, .stmt mergingScript⟩
      ⟨mergedState, .expr mixedRows⟩ := by
    refine .head (b := ⟨mergedState, .stmt (.assign ⟨1, 1⟩ (.name ⟨1, 1⟩ "b") mixedRows)⟩) ?_
      (.single ?_)
    · exact List.mem_cons_of_mem _ List.mem_cons_self
    · exact List.mem_cons_self
  obtain ⟨t, st, hresult, -, -, hst⟩ := hcalls _ hreach
  have hrows : mixedRows.check (.collectingBy fun _ => 1) mergedState =
      .ok ⟨some .bool, [some 2, some 2]⟩ ⟨mergedState.table,
        #[⟨⟨1, 1⟩, "All elements in vector have to have the same type, 2 different types found"⟩,
          ⟨⟨1, 1⟩, "All elements in vector have to have the same type, 2 different types found"⟩]⟩ := by
    set_option maxRecDepth 4000 in cbv
  cases hrows.symm.trans hresult
  have hsized : Ty.Sized ⟨some .int, [some 2, some 2]⟩ ∧ Ty.Sized ⟨some .float, [none, none]⟩ := by
    unfold Ty.Sized
    decide
  obtain ⟨hcomm, hjoin⟩ := hdotted .raising ⟨1, 1⟩ ".*" .multiply _ _ ⟨some .float, [some 2, some 2]⟩
    {} rfl hsized.1 hsized.2
  have hproduct : dottedType .raising ⟨1, 1⟩ ".*" .multiply ⟨some .int, [some 2, some 2]⟩
      ⟨some .float, [none, none]⟩ {} = .ok ⟨some .float, [some 2, some 2]⟩ {} := rfl
  exact ⟨hp, hreach, ⟨_, hrows, rfl, hst⟩, rfl, hcomm.1 hproduct, (hjoin.1 hproduct).2⟩

end MatScript
