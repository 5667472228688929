import MatScript.Proofs.FirstFault
import MatScript.Proofs.Reporting
import MatScript.Session

/-! Checkers that share a table. A new checker of a session goes on with the table of the one before
it. A check that comes to its end leaves nothing there. One that stops leaves the scopes it was in,
with their names, and these can hide faults of later scripts; but they never add one to a script
that has none. -/
namespace MatScript

open Typing

/-! ## What a check leaves on the table -/

namespace Typing

/-- From one state to the other scopes were added, and names to scopes, with no name in two of
them. -/
def TableEvolves (st st' : State) : Prop := st.table.Evolves st'.table

lemma follows_evolves (p : Policy) :
    Follows (fun _ => True) (fun _ => True) TableEvolves p where
  refl st := .refl st.table
  trans h h' := h.trans h'
  report st _ _ _ := .refl st.table
  set st id t _ := .set st.table id t
  push st name := .push st.table name
  pop h := h.pop

/-- A raising check collects nothing. -/
lemma follows_faults :
    Follows (fun _ => True) (fun _ => True) (fun st st' => st'.faults = st.faults) .raising where
  refl _ := rfl
  trans h h' := h'.trans h
  report _ _ hp := by cases hp
  set _ _ _ _ := rfl
  push _ _ := rfl
  pop h := h

end Typing

namespace Scopes

variable {α : Type}

lemma eq_empty_of_sameKeys {t : Scopes α} (h : (empty : Scopes α).SameKeys t) : t = empty := by
  obtain ⟨inner, name, bindings⟩ := t
  have hlength := h.length_eq
  have hinner : inner = [] := by simpa [toList, empty] using hlength
  subst hinner
  obtain ⟨hname, hkeys⟩ := (List.forall₂_cons.mp h).1
  cases bindings with
  | nil => rw [show name = "global" from hname]; rfl
  | cons b bs => simpa [Scope.contains, Scope.get?, empty] using hkeys b.1

end Scopes

/-- A check of a script that comes to its end leaves a new table as it was. -/
lemma Stmt.table_of_script {s : Stmt} (hs : s.NormalScript) {p : Policy} {st st' : Typing.State}
    {t : Ty} (hst : st.table = .empty) (h : s.check p st = .ok t st') : st'.table = .empty := by
  cases s with
  | block span body =>
    obtain ⟨st₁, hbody, rfl⟩ := Stmt.check_block h
    have hwidens := Stmt.widensTable_all p body _ _ _ hbody
    rw [State.table_push, hst] at hwidens
    exact Scopes.eq_empty_of_sameKeys hwidens.pop
  | _ => exact hs.elim

/-! ## Checks on a larger table -/

namespace Typing

/-- The larger table knows every name of the smaller one with its type, and is inside a loop if the
smaller one is. -/
structure Extends (small big : Scopes Ty) : Prop where
  types : ∀ x t, small.get? x = some t → big.get? x = some t
  loop : small.hasScope "loop" = true → big.hasScope "loop" = true
  separate : small.Separate ∧ big.Separate

namespace Extends

variable {small big : Scopes Ty}

lemma contains (h : Extends small big) {x : String} (hx : small.contains x = true) :
    big.contains x = true := by
  rw [← Scopes.get?_isSome] at hx
  obtain ⟨t, ht⟩ := Option.isSome_iff_exists.mp hx
  exact Scopes.contains_of_get? (h.types x t ht)

lemma push (h : Extends small big) (name : String) : Extends (small.push name) (big.push name) := by
  refine ⟨fun x t => ?_, fun hl => ?_, h.separate.1.push name, h.separate.2.push name⟩
  · simpa using h.types x t
  · rw [Scopes.hasScope_push, Bool.or_eq_true] at hl ⊢
    exact hl.imp_right h.loop

lemma set (h : Extends small big) (id : String) (t : Ty) :
    Extends (small.set id t) (big.set id t) := by
  refine ⟨fun x u hx => ?_, fun hl => ?_, h.separate.1.set id t, h.separate.2.set id t⟩
  · rw [Scopes.get?_set] at hx ⊢
    by_cases hid : x = id
    · rwa [if_pos hid] at hx ⊢
    · rw [if_neg hid] at hx ⊢
      exact h.types x u hx
  · rw [(Scopes.widens_set _ id t).hasScope] at hl ⊢
    exact h.loop hl

/-- A scope that was entered on both tables is left on both. -/
lemma pop {small' big' : Scopes Ty} {name : String} (h : Extends small big)
    (h' : Extends small' big') (hs : (small.push name).Widens small')
    (hb : (big.push name).Widens big') : Extends small'.pop big'.pop := by
  refine ⟨fun x t hx => ?_, fun hl => ?_, h'.separate.1.pop, h'.separate.2.pop⟩
  · have hsmall : small'.pop.contains x = true := Scopes.contains_of_get? hx
    have hbig : big'.pop.contains x = true := by
      rw [hb.pop.contains]
      exact h.contains (by rwa [hs.pop.contains] at hsmall)
    rw [h'.separate.2.get?_pop hbig]
    rw [h'.separate.1.get?_pop hsmall] at hx
    exact h'.types x t hx
  · rw [hb.pop.widens.hasScope]
    rw [hs.pop.widens.hasScope] at hl
    exact h.loop hl

end Extends

/-- The checks that, where they come to their end, do so on every larger table, with the same
result. -/
def Lifts {α : Type} (c : Check α) : Prop := ∀ st st₂ a st', Extends st.table st₂.table →
  c st = .ok a st' → ∃ st₂', c st₂ = .ok a st₂' ∧ Extends st'.table st₂'.table

section

variable {α β : Type}

lemma Reports.lifts {c : Check α} (hc : Reports (fun _ => True) .raising c) : Lifts c := by
  intro st st₂ a st' h hst
  obtain ⟨rfl, hall⟩ := hc.eq_ok hst
  exact ⟨st₂, hall st₂, h⟩

lemma Lifts.bind {c : Check α} {f : α → Check β} (hc : Lifts c) (hf : ∀ a, Lifts (f a)) :
    Lifts (c >>= f) := by
  intro st st₂ b st' h hst
  obtain ⟨a, st₁, h₁, h₂⟩ := bind_eq_ok.mp hst
  obtain ⟨st₃, h₃, hext⟩ := hc _ _ _ _ h h₁
  obtain ⟨st₄, h₄, hext'⟩ := hf a _ _ _ _ hext h₂
  exact ⟨st₄, bind_eq_ok.mpr ⟨a, st₃, h₃, h₄⟩, hext'⟩

lemma lifts_require (span : Span) (t required : Ty) (message : String) :
    Lifts (require .raising span t required message) := by
  intro st st₂ u st' h hst
  obtain ⟨rfl, rfl⟩ := require_raising.mp hst
  exact ⟨st₂, require_raising.mpr ⟨rfl, rfl⟩, h⟩

lemma lifts_nameType (span : Span) (id : String) : Lifts (nameType .raising span id) := by
  intro st st₂ t st' h hst
  obtain ⟨hid, rfl⟩ := nameType_raising.mp hst
  exact ⟨st₂, nameType_raising.mpr ⟨h.types id t hid, rfl⟩, h⟩

lemma lifts_setType (id : String) (t : Ty) : Lifts (setType id t) := by
  intro st st₂ u st' h hst
  obtain rfl := setType_eq_ok.mp hst
  exact ⟨st₂.set id t, setType_eq_ok.mpr rfl, h.set id t⟩

lemma Lifts.within {name : String} {body : Check Unit} (hbody : Lifts body)
    (hw : WidensTable body) : Lifts (within name body) := by
  intro st st₂ u st' h hst
  obtain ⟨st₁, h₁, rfl⟩ := within_eq_ok.mp hst
  obtain ⟨st₃, h₃, hext⟩ := hbody _ (st₂.push name) _ _ (h.push name) h₁
  refine ⟨st₃.pop, within_eq_ok.mpr ⟨st₃, h₃, rfl⟩, ?_⟩
  exact h.pop hext (hw _ _ _ h₁) (hw _ _ _ h₃)

end

end Typing

mutual

theorem Expr.lifts : (e : Expr) → Lifts (e.check .raising)
  | .constant _ _ => by simpa only [Expr.check] using Reports.lifts (.pure _)
  | .vector _ items => by
    simp only [Expr.check]
    exact (Expr.lifts_all items).bind fun _ => Reports.lifts (.vectorType _ _)
  | .range _ start stop => by
    simp only [Expr.check]
    refine start.lifts.bind fun _ => (lifts_require _ _ _ _).bind fun _ => ?_
    refine stop.lifts.bind fun _ => (lifts_require _ _ _ _).bind fun _ => Reports.lifts (.pure _)
  | .operator _ _ operands => by
    simp only [Expr.check]
    exact (Expr.lifts_all operands).bind fun _ => Reports.lifts (.operatorType trivial _ _)
  | .call _ _ arguments => by
    simp only [Expr.check]
    exact (Expr.lifts_all arguments).bind fun _ => Reports.lifts (.callType trivial _ _)
  | .name _ _ => by simpa only [Expr.check] using lifts_nameType _ _
  | .element _ _ _ indices _ => by
    simp only [Expr.check]
    refine (lifts_nameType _ _).bind fun _ => (Expr.lifts_all indices).bind fun _ => ?_
    exact (Reports.lifts (.vectorType _ _)).bind fun _ => Reports.lifts (.elementType _ _ _ _)
  | .gap _ _ => by simpa only [Expr.check] using Reports.lifts (.throw _)

theorem Expr.lifts_all : (es : List Expr) → Lifts (Expr.checkAll .raising es)
  | [] => by simpa only [Expr.checkAll] using Reports.lifts (.pure _)
  | e :: es => by
    simp only [Expr.checkAll]
    exact e.lifts.bind fun _ => (Expr.lifts_all es).bind fun _ => Reports.lifts (.pure _)

end

namespace Typing

lemma lifts_checkAssign (span : Span) (target value : Expr) :
    Lifts (checkAssign .raising span target value) := by
  unfold checkAssign
  split
  · exact value.lifts.bind fun _ => lifts_setType _ _
  · exact (Expr.lifts _).bind fun _ => value.lifts.bind fun _ => lifts_require _ _ _ _
  · exact Reports.lifts (.pure _)

lemma lifts_checkUpdate (span : Span) (symbol : String) (target value : Expr) :
    Lifts (checkUpdate .raising span symbol target value) := by
  unfold checkUpdate
  refine target.lifts.bind fun _ => value.lifts.bind fun _ => ?_
  dsimp only
  split
  · exact Reports.lifts (.throw _)
  · split
    · intro st st₂ u st' _ hst
      cases hst
    · split
      · exact lifts_setType _ _
      · exact lifts_require _ _ _ _
      · exact Reports.lifts (.pure _)

/-- Where a jump stands in a loop on the smaller table, it does so on the larger one. -/
lemma lifts_checkInstruction (span : Span) (name : String) (arguments : List Expr) :
    Lifts (checkInstruction .raising span name arguments) := by
  have hrest : Lifts (discard (Expr.checkAll .raising arguments)) :=
    (Expr.lifts_all arguments).bind fun _ => Reports.lifts (.pure _)
  unfold checkInstruction
  split
  · intro st st₂ u st' h hst
    rw [bind_ok (show getTable st = .ok st.table st from rfl)] at hst
    rw [bind_ok (show getTable st₂ = .ok st₂.table st₂ from rfl)]
    cases hl : st.table.hasScope "loop" with
    | true =>
      rw [hl] at hst
      rw [h.loop hl]
      exact hrest _ _ _ _ h hst
    | false =>
      rw [hl] at hst
      cases hst
  · exact hrest

end Typing

mutual

/-- A statement that is accepted on a table is accepted on every larger one. -/
theorem Stmt.lifts : (s : Stmt) → Lifts (s.check .raising)
  | .block _ body => by
    simp only [Stmt.check]
    refine ((Stmt.lifts_all body).within (Stmt.widensTable_all _ body)).bind fun _ => ?_
    exact Reports.lifts (.pure _)
  | .assign _ _ _ => by
    simp only [Stmt.check]
    exact (lifts_checkAssign _ _ _).bind fun _ => Reports.lifts (.pure _)
  | .update _ _ _ _ => by
    simp only [Stmt.check]
    exact (lifts_checkUpdate _ _ _ _).bind fun _ => Reports.lifts (.pure _)
  | .instruction _ _ _ => by
    simp only [Stmt.check]
    exact (lifts_checkInstruction _ _ _).bind fun _ => Reports.lifts (.pure _)
  | .whileLoop _ condition body => by
    simp only [Stmt.check]
    refine condition.lifts.bind fun _ => (lifts_require _ _ _ _).bind fun _ => ?_
    exact body.lifts_within.bind fun _ => Reports.lifts (.pure _)
  | .forLoop _ _ _ range body => by
    simp only [Stmt.check]
    refine range.lifts.bind fun _ => (lifts_setType _ _).bind fun _ => ?_
    exact body.lifts_within.bind fun _ => Reports.lifts (.pure _)
  | .ifThen _ condition yes => by
    simp only [Stmt.check]
    refine condition.lifts.bind fun _ => (lifts_require _ _ _ _).bind fun _ => ?_
    exact yes.lifts_within.bind fun _ => Reports.lifts (.pure _)
  | .ifElse _ condition yes no => by
    simp only [Stmt.check]
    refine condition.lifts.bind fun _ => (lifts_require _ _ _ _).bind fun _ => ?_
    refine yes.lifts_within.bind fun _ => no.lifts_within.bind fun _ => ?_
    exact Reports.lifts (.pure _)
  | .expr e => by simpa only [Stmt.check] using e.lifts

theorem Stmt.lifts_within (s : Stmt) {name : String} :
    Lifts (within name (discard (s.check .raising))) :=
  Lifts.within (s.lifts.bind fun _ => Reports.lifts (.pure _)) (s.widensTable _).discard

theorem Stmt.lifts_all : (ss : List Stmt) → Lifts (Stmt.checkAll .raising ss)
  | [] => by simpa only [Stmt.checkAll] using Reports.lifts (.pure _)
  | s :: ss => by
    simp only [Stmt.checkAll]
    exact (s.lifts.bind fun _ => Reports.lifts (.pure _)).bind fun _ => Stmt.lifts_all ss

end

/-- Acceptance does not hang on the policy: a script without faults has none for any checker. -/
lemma Stmt.check_eq_ok_iff {s : Stmt} (hs : s.Normal) (p : Policy) (table table' : Scopes Ty)
    (t : Ty) : s.check p ⟨table, #[]⟩ = .ok t ⟨table', #[]⟩ ↔
      s.check .raising ⟨table, #[]⟩ = .ok t ⟨table', #[]⟩ := by
  obtain ⟨a, T, new, -, hc, hr⟩ := s.mirrors p.pick p.pick hs table #[]
  obtain ⟨a', T', new', -, hc', hr'⟩ := s.mirrors p.pick (fun _ => 0) hs table #[]
  rw [hc] at hc'
  obtain ⟨rfl, rfl, rfl⟩ : a = a' ∧ T = T' ∧ new = new' := by simpa using hc'
  obtain ⟨collect, pick⟩ := p
  cases new with
  | nil =>
    rw [show s.check .raising ⟨table, #[]⟩ = .ok a ⟨T, #[]⟩ from hr']
    cases collect with
    | true => rw [show s.check ⟨true, pick⟩ ⟨table, #[]⟩ = .ok a ⟨T, #[]⟩ from hc]
    | false => rw [show s.check ⟨false, pick⟩ ⟨table, #[]⟩ = .ok a ⟨T, #[]⟩ from hr]
  | cons f rest =>
    obtain ⟨st, hst⟩ := hr
    obtain ⟨st', hst'⟩ := hr'
    rw [show s.check .raising ⟨table, #[]⟩ = .error (.fault f) st' from hst']
    cases collect with
    | true =>
      rw [show s.check ⟨true, pick⟩ ⟨table, #[]⟩ = .ok a ⟨T, #[] ++ (f :: rest).toArray⟩ from hc]
      simp
    | false => rw [show s.check ⟨false, pick⟩ ⟨table, #[]⟩ = .error (.fault f) st from hst]; simp

/-! ## Verdicts -/

/-- A script, and the policy of the new checker that it is given to. -/
structure Trial where
  policy : Policy
  script : Stmt

/-- What a checker says of a script: how the check ends, and the faults it has collected. -/
structure Verdict where
  result : Except Typing.Stop Ty
  faults : Array Fault

namespace Verdict

def ofResult : EStateM.Result Typing.Stop Typing.State Ty → Verdict
  | .ok t st => ⟨.ok t, st.faults⟩
  | .error stop st => ⟨.error stop, st.faults⟩

/-- The script was accepted, with no fault. -/
def Accepts (v : Verdict) : Prop := ∃ t, v = ⟨.ok t, #[]⟩

lemma accepts_ofResult {r : EStateM.Result Typing.Stop Typing.State Ty} :
    (ofResult r).Accepts ↔ ∃ t table, r = .ok t ⟨table, #[]⟩ := by
  constructor
  · rintro ⟨t, h⟩
    cases r with
    | ok u st =>
      obtain ⟨table, faults⟩ := st
      obtain ⟨rfl, rfl⟩ : u = t ∧ faults = #[] := by simpa [ofResult] using h
      exact ⟨u, table, rfl⟩
    | error stop st => simp [ofResult] at h
  · rintro ⟨t, table, rfl⟩
    exact ⟨t, rfl⟩

end Verdict

namespace Session

/-- Give a script to a new checker. -/
def judge (s : Session) (c : Trial) : Verdict × Session :=
  let (result, s) := (s.resetChecker c.policy).check c.script
  (⟨result, s.typing.faults⟩, s)

/-- The session after scripts that were each given to a new checker. -/
def judgeAll (s : Session) (cs : List Trial) : Session := cs.foldl (fun s c => (s.judge c).2) s

variable {s : Session} {c : Trial} {cs : List Trial}

/-- The verdict hangs on the table alone. -/
lemma judge_eq (s : Session) (c : Trial) :
    (s.judge c).1 = .ofResult (c.script.check c.policy ⟨s.typing.table, #[]⟩) ∧
      (s.judge c).2.typing = stateAfter (c.script.check c.policy ⟨s.typing.table, #[]⟩) := by
  have hcheck : (s.resetChecker c.policy).typing = ⟨s.typing.table, #[]⟩ := rfl
  unfold judge check
  rw [hcheck]
  dsimp only [resetChecker]
  cases c.script.check c.policy ⟨s.typing.table, #[]⟩ with
  | ok t st => exact ⟨rfl, rfl⟩
  | error stop st => exact ⟨rfl, rfl⟩

lemma evolves_judgeAll (cs : List Trial) (s : Session) :
    s.typing.table.Evolves (s.judgeAll cs).typing.table := by
  induction cs generalizing s with
  | nil => exact .refl _
  | cons c cs ih =>
    have hmoves := c.script.moves (follows_evolves c.policy) (fun _ _ => trivial) fun _ _ => trivial
    have hstep := hmoves ⟨s.typing.table, #[]⟩
    rw [← (judge_eq s c).2] at hstep
    exact hstep.trans (ih (s.judge c).2)

/-- Checks that come to their end leave a new table as it was. -/
lemma table_judgeAll (hcs : ∀ c ∈ cs, c.script.NormalScript ∧
      (c.policy.collect = true ∨ (({} : Session).judge c).1.Accepts))
    (hs : s.typing.table = .empty) : (s.judgeAll cs).typing.table = .empty := by
  induction cs generalizing s with
  | nil => exact hs
  | cons c cs ih =>
    obtain ⟨hscript, hends⟩ := hcs c List.mem_cons_self
    refine ih (fun d hd => hcs d (List.mem_cons_of_mem c hd)) ?_
    rw [(judge_eq s c).2, hs]
    obtain ⟨t, st, hst⟩ : ∃ t st, c.script.check c.policy ⟨.empty, #[]⟩ = .ok t st := by
      rcases hends with hcollect | haccepts
      · obtain ⟨⟨collect, pick⟩, script⟩ := c
        obtain rfl : collect = true := hcollect
        obtain ⟨t, table, new, -, hc, -⟩ := script.mirrors pick pick hscript.normal .empty #[]
        exact ⟨t, _, hc⟩
      · rw [(judge_eq {} c).1] at haccepts
        obtain ⟨t, table, hc⟩ := Verdict.accepts_ofResult.mp haccepts
        exact ⟨t, _, hc⟩
    rw [hst]
    exact Stmt.table_of_script hscript rfl hst

/-- What is accepted on a new table is accepted after every history, with the same type. -/
lemma verdict_of_accepts (hc : c.script.Normal) (haccepts : (({} : Session).judge c).1.Accepts)
    (cs : List Trial) :
    ((({} : Session).judgeAll cs).judge c).1 = (({} : Session).judge c).1 := by
  rw [(judge_eq _ c).1] at haccepts
  obtain ⟨t, table, ht⟩ := Verdict.accepts_ofResult.mp haccepts
  have hraising := (Stmt.check_eq_ok_iff hc c.policy .empty table t).mp ht
  generalize hs : ({} : Session).judgeAll cs = s
  have hext : Extends .empty s.typing.table := by
    refine ⟨fun x t hx => ?_, fun hl => ?_, Scopes.separate_empty, ?_⟩
    · cases hx
    · cases hl
    · rw [← hs]
      exact (evolves_judgeAll cs {}).separate Scopes.separate_empty
  obtain ⟨⟨table', faults⟩, hlifted, -⟩ :=
    c.script.lifts ⟨.empty, #[]⟩ ⟨s.typing.table, #[]⟩ _ _ hext hraising
  have hmoves := c.script.moves follows_faults (fun _ _ => trivial) fun _ _ => trivial
  obtain rfl : faults = #[] := hmoves.ok hlifted
  rw [(judge_eq _ c).1, (judge_eq _ c).1,
    (Stmt.check_eq_ok_iff hc c.policy s.typing.table table' t).mpr hlifted]
  exact (congrArg Verdict.ofResult ht).symm

end Session

/-- The trees of texts that can be read. -/
def Stmt.IsScript (s : Stmt) : Prop := ∃ line text, (Script.parse line text).script = .ok s

/-- The verdict of a new checker, on whatever scripts checkers were tried before, is the one on a
new table, if no raising checker before it has rejected a script, or if that verdict is to accept. -/
theorem Session.verdict_eq_on_new_table {history : List Trial} {c : Trial}
    (hread : ∀ d ∈ c :: history, d.script.IsScript)
    (h : (∀ d ∈ history, d.policy.collect = true ∨ (({} : Session).judge d).1.Accepts) ∨
      (({} : Session).judge c).1.Accepts) :
    ((({} : Session).judgeAll history).judge c).1 = (({} : Session).judge c).1 := by
  have hscript : ∀ d ∈ c :: history, d.script.NormalScript := by
    intro d hd
    obtain ⟨line, text, hp⟩ := hread d hd
    exact (Parse.normal_of_script hp).1
  rcases h with hends | haccepts
  · have hempty : (({} : Session).judgeAll history).typing.table = .empty :=
      table_judgeAll (fun d hd => ⟨hscript d (List.mem_cons_of_mem c hd), hends d hd⟩) rfl
    rw [(judge_eq _ c).1, (judge_eq _ c).1, hempty]
  · exact verdict_of_accepts (hscript c List.mem_cons_self).normal haccepts history

/-- The script `x = 1; print y;`, whose second statement is faulty on a new table. -/
def leakingScript : Stmt :=
  let at1 : Span := ⟨1, 1⟩
  .block at1 [
    .assign at1 (.name at1 "x") (.constant at1 (.int 1)),
    .instruction at1 "print" [.name at1 "y"]]

/-- The script `print x;`. -/
def readingScript : Stmt := .block ⟨1, 1⟩ [.instruction ⟨1, 1⟩ "print" [.name ⟨1, 1⟩ "x"]]

/-- The script `y = 2; print y;`. -/
def properScript : Stmt :=
  let at1 : Span := ⟨1, 1⟩
  .block at1 [
    .assign at1 (.name at1 "y") (.constant at1 (.int 2)),
    .instruction at1 "print" [.name at1 "y"]]

lemma isScript_leakingScript : leakingScript.IsScript := ⟨1, "x = 1; print y;", by cbv⟩

lemma isScript_readingScript : readingScript.IsScript := ⟨1, "print x;", by cbv⟩

lemma isScript_properScript : properScript.IsScript := ⟨1, "y = 2; print y;", by cbv⟩

/-- A fault is found after a collecting check that found one, and a proper script is accepted after
a raising check that stopped. -/
theorem Session.verdict_eq_on_new_table_trials :
    (∀ s ∈ [leakingScript, readingScript, properScript], s.IsScript) ∧
    ((({} : Session).judgeAll [⟨.collecting, leakingScript⟩, ⟨.raising, properScript⟩]).judge
      ⟨.raising, readingScript⟩).1 = ⟨.error (.fault ⟨⟨1, 1⟩, "Variable x is not defined"⟩), #[]⟩ ∧
    ((({} : Session).judgeAll [⟨.raising, leakingScript⟩]).judge ⟨.raising, properScript⟩).1 =
      ⟨.ok .none, #[]⟩ := by
  have hproper : (({} : Session).judge ⟨.raising, properScript⟩).1 = ⟨.ok .none, #[]⟩ := by cbv
  have hreading : (({} : Session).judge ⟨.raising, readingScript⟩).1 =
      ⟨.error (.fault ⟨⟨1, 1⟩, "Variable x is not defined"⟩), #[]⟩ := by cbv
  refine ⟨?_, ?_, ?_⟩
  · simp [isScript_leakingScript, isScript_readingScript, isScript_properScript]
  · rw [Session.verdict_eq_on_new_table ?_ (.inl ?_), hreading]
    · simp [isScript_leakingScript, isScript_readingScript, isScript_properScript]
    · simp [Policy.collecting, hproper, Verdict.Accepts]
  · rw [Session.verdict_eq_on_new_table ?_ (.inr ⟨_, hproper⟩), hproper]
    simp [isScript_leakingScript, isScript_properScript]

/-- A raising check that stops hides a fault from the next checker: the name `x` is left on the
table. -/
theorem Session.verdict_after_rejection :
    leakingScript.IsScript ∧ readingScript.IsScript ∧
    (({} : Session).judge ⟨.raising, readingScript⟩).1 =
      ⟨.error (.fault ⟨⟨1, 1⟩, "Variable x is not defined"⟩), #[]⟩ ∧
    ((({} : Session).judgeAll [⟨.raising, leakingScript⟩]).judge ⟨.raising, readingScript⟩).1 =
      ⟨.ok .none, #[]⟩ :=
  ⟨isScript_leakingScript, isScript_readingScript, by cbv, by cbv⟩

end MatScript
