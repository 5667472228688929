import MatScript.Proofs.PlainMessages

/-! The commands take a text through the same stages. A text that cannot be read is refused by all
in the same words; the faults that a check lists are those of which a run shows the first; and what
is run is what was found to have none. -/
namespace MatScript

open Text

lemma Report.ofFailure_of_diagnostic {f : Failure} {d : Diagnostic} (h : f.diagnostic? = some d)
    (out : String) : Report.ofFailure out f = { out, err := Report.line d.text } := by
  rw [Report.ofFailure]
  simp only [h]

namespace Command

/-- The text that a command reads. -/
def source (text : String) : String := String.ofList (unifyNewlines text.toList)

section

variable {pick : List Ty → Nat} {fuel : Nat} {text : String} {s : Stmt}

lemma report_of_unreadable {e : Parse.Error}
    (h : (Script.parse 1 (source text)).script = .error e) {c : Command} (hc : c ≠ .table) :
    c.report pick fuel text = .ofFailure "" (.reading e) := by
  unfold source at h
  cases c with
  | table => exact absurd rfl hc
  | parse | outline | check | run => simp [report, perform, Session.run, h, showRun]

lemma report_parse (h : (Script.parse 1 (source text)).script = .ok s) :
    report pick fuel .parse text = {} := by
  unfold source at h
  simp [report, perform, h]

lemma report_check {t : Ty} {st : Typing.State}
    (h : (Script.parse 1 (source text)).script = .ok s)
    (hst : s.check (.collectingBy pick) {} = .ok t st) :
    report pick fuel .check text =
      { err := String.join (st.faults.toList.map fun f => Report.line f.diagnostic.text) } := by
  unfold source at h
  simp [report, perform, Session.run, Session.perform, Session.check, h, hst]

lemma report_run_of_stop {stop : Typing.Stop} {st : Typing.State}
    (h : (Script.parse 1 (source text)).script = .ok s)
    (hst : s.check .raising {} = .error stop st) :
    report pick fuel .run text = .ofFailure "" (.typing stop) := by
  unfold source at h
  simp [report, perform, Session.run, Session.perform, Session.check, h, hst, showRun]

lemma report_run {t : Ty} {st : Typing.State} {v : Value} {m : Machine}
    (h : (Script.parse 1 (source text)).script = .ok s) (hst : s.check .raising {} = .ok t st)
    (hrun : s.run fuel {} = .ok v m) :
    report pick fuel .run text = showRun (.ok (some v)) m := by
  unfold source at h
  simp [report, perform, Session.run, Session.perform, Session.check, Session.onMachine, h, hst,
    hrun]

end

end Command

/-- A value without integers of too many digits. -/
def Value.Writable : Value → Prop
  | .int n => n.natAbs < digitLimit
  | .range start stop => start.natAbs < digitLimit ∧ stop.natAbs < digitLimit
  | _ => True

instance : (v : Value) → Decidable v.Writable
  | .int n => inferInstanceAs (Decidable (n.natAbs < Value.digitLimit))
  | .range start stop =>
    inferInstanceAs (Decidable (start.natAbs < Value.digitLimit ∧ stop.natAbs < Value.digitLimit))
  | .none | .bool _ | .float _ | .text _ | .elem _ | .array _ => .isTrue trivial

lemma Value.intText_ok {n : Int} (h : n.natAbs < digitLimit) : intText n = .ok (toString n) :=
  if_neg (Nat.not_le.2 h)

lemma Value.intText_error {n : Int} (h : ¬ n.natAbs < digitLimit) :
    intText n = .error .tooManyDigitsToWrite :=
  if_pos (Nat.not_lt.1 h)

lemma Value.Writable.display {v : Value} (h : v.Writable) (store : Store) :
    ∃ t, v.display store = .ok t := by
  cases v with
  | int n => exact ⟨_, intText_ok h⟩
  | range start stop =>
    refine ⟨"range(" ++ toString start ++ ", " ++ toString stop ++ ")", ?_⟩
    rw [Value.display, intText_ok h.1, intText_ok h.2]
    rfl
  | _ => exact ⟨_, rfl⟩

lemma Value.display_of_not_writable {v : Value} (h : ¬ v.Writable) (store : Store) :
    v.display store = .error .tooManyDigitsToWrite := by
  cases v with
  | int n => exact intText_error h
  | range start stop =>
    rw [Value.display]
    by_cases hstart : start.natAbs < digitLimit
    · have hstop : ¬ stop.natAbs < digitLimit := fun hstop => h ⟨hstart, hstop⟩
      rw [intText_ok hstart, intText_error hstop]
      rfl
    · rw [intText_error hstart]
      rfl
  | _ => exact absurd trivial h

namespace Command

lemma showRun_of_display {v : Value} {m : Machine} {t : String} (hv : v ≠ .none)
    (h : v.display m.store = .ok t) : showRun (.ok (some v)) m =
      { out := m.output ++ "Execution returned: " ++ dropCodes t ++ "\n" } := by
  have hline : Report.line ("Execution returned: " ++ t) =
      "Execution returned: " ++ dropCodes t ++ "\n" := by
    rw [Report.line, dropCodes_append (by decide)]
  cases v with
  | none => exact absurd rfl hv
  | _ => simp only [showRun, h, hline, String.append_assoc]

lemma showRun_of_not_writable {v : Value} {m : Machine} (h : ¬ v.Writable) :
    showRun (.ok (some v)) m =
      { exit := 1, out := m.output,
        failure := some (.running (.failed .tooManyDigitsToWrite)) } := by
  have hdisplay := Value.display_of_not_writable h m.store
  cases v with
  | none => exact absurd trivial h
  | _ => simp [showRun, hdisplay, Report.ofFailure, Failure.diagnostic?]

/-- All commands that read a text refuse it in the same words. Of a text that can be read, `parse`
says nothing, `check` lists the faults, and `run` shows the first of them and runs nothing; without
faults it shows the output and then the value. Lines lose their codes for the terminal. It does not
matter which of several differing types of items a check goes on with. -/
theorem stages_agree (pick : List Ty → Nat) (fuel : Nat) (text : String) :
    (∀ e d, (Script.parse 1 (source text)).script = .error e →
      (Failure.reading e).diagnostic? = some d →
      ∀ c : Command, c ≠ .table → c.report pick fuel text = { err := dropCodes d.text ++ "\n" }) ∧
    (∀ s, (Script.parse 1 (source text)).script = .ok s →
      ∃ t st, s.check (.collectingBy pick) {} = .ok t st ∧
        report pick fuel .parse text = {} ∧
        report pick fuel .check text =
          { err := String.join (st.faults.toList.map fun f => f.diagnostic.text ++ "\n") } ∧
        (∀ f, st.faults[0]? = some f →
          report pick fuel .run text = { err := f.diagnostic.text ++ "\n" }) ∧
        (st.faults = #[] → ∀ v m, s.run fuel {} = .ok v m →
          (v = .none → report pick fuel .run text = { out := m.output }) ∧
          (v ≠ .none → v.Writable → ∃ shown, v.display m.store = .ok shown ∧
            report pick fuel .run text =
              { out := m.output ++ "Execution returned: " ++ dropCodes shown ++ "\n" }) ∧
          (¬ v.Writable → report pick fuel .run text =
            { exit := 1, out := m.output,
              failure := some (.running (.failed .tooManyDigitsToWrite)) }))) ∧
    ∀ line, '\x1b' ∉ line.toList → dropCodes line = line := by
  refine ⟨fun e d he hd c hc => ?_, fun s hs => ?_, fun line h => dropCodes_of_noEscape h⟩
  · rw [report_of_unreadable he hc, Report.ofFailure_of_diagnostic hd, Report.line]
  obtain ⟨t, table, new, -, hcollect, hraise⟩ :=
    s.mirrors pick (fun _ => 0) (Parse.normal_of_script hs).1.normal .empty #[]
  rw [Array.empty_append] at hcollect
  have hline (f : Typing.Fault) (hf : f ∈ new) :
      Report.line f.diagnostic.text = f.diagnostic.text ++ "\n" := by
    have hplain := Script.noEscape_faults hs hcollect f (List.mem_toArray.2 hf)
    rw [Report.line, dropCodes_of_noEscape hplain]
  refine ⟨t, _, hcollect, report_parse hs, ?_, fun f hf => ?_, fun hnone v m hrun => ?_⟩
  · rw [report_check hs hcollect, List.map_congr_left hline]
  · cases new with
    | nil => simp at hf
    | cons fault rest =>
      obtain rfl : fault = f := by simpa using hf
      obtain ⟨st, hst⟩ := hraise
      rw [report_run_of_stop hs hst, Report.ofFailure_of_diagnostic rfl,
        hline fault List.mem_cons_self]
  · obtain rfl : new = [] := by simpa using hnone
    rw [report_run hs hraise hrun]
    refine ⟨?_, fun hv hw => ?_, showRun_of_not_writable⟩
    · rintro rfl
      rfl
    · obtain ⟨shown, hshown⟩ := hw.display m.store
      exact ⟨shown, hshown, showRun_of_display hv hshown⟩

/-- The second line has two faults. -/
def faultyText : String := "print 1;\r\nprint y; break;"

def faultyScript : Stmt :=
  .block ⟨1, 2⟩ [.instruction ⟨1, 1⟩ "print" [.constant ⟨1, 1⟩ (.int 1)],
    .instruction ⟨2, 2⟩ "print" [.name ⟨2, 2⟩ "y"], .instruction ⟨2, 2⟩ "break" []]

def returningText : String := "print \"one\";\rreturn true;"

def returningScript : Stmt :=
  .block ⟨1, 2⟩ [.instruction ⟨1, 1⟩ "print" [.constant ⟨1, 1⟩ (.text "one")],
    .instruction ⟨2, 2⟩ "return" [.constant ⟨2, 2⟩ (.bool true)]]

theorem stages_agree_texts :
    (∀ c : Command, c ≠ .table → c.report (fun _ => 1) 9 "x = ;" =
      { err := "Parser error (line 1): Unexpected token (SEMICOLON, ';')\n" }) ∧
    report (fun _ => 1) 9 .check faultyText =
      { err := "TypeChecker error (line 2): Variable y is not defined\n" ++
          "TypeChecker error (line 2): Instruction break has to be inside a loop\n" } ∧
    report (fun _ => 1) 9 .run faultyText =
      { err := "TypeChecker error (line 2): Variable y is not defined\n" } ∧
    report (fun _ => 1) 9 .run returningText = { out := "one\nExecution returned: True\n" } := by
  have hbroken : (Script.parse 1 (source "x = ;")).script =
      .error (.unexpected ⟨.symbol .semicolon, 1, 5, 4⟩) := by cbv
  have hfaulty : (Script.parse 1 (source faultyText)).script = .ok faultyScript := by cbv
  have hreturning : (Script.parse 1 (source returningText)).script = .ok returningScript := by cbv
  have hfaults : faultyScript.check (.collectingBy fun _ => 1) {} = .ok .none ⟨.empty,
      #[⟨⟨2, 2⟩, "Variable y is not defined"⟩,
        ⟨⟨2, 2⟩, "Instruction break has to be inside a loop"⟩]⟩ := by cbv
  have hnone : returningScript.check (.collectingBy fun _ => 1) {} = .ok .none {} := by cbv
  refine ⟨fun c hc => ?_, ?_⟩
  · rw [(stages_agree (fun _ => 1) 9 "x = ;").1 _ _ hbroken rfl c hc]
    cbv
  · obtain ⟨t, st, hst, -, hlist, hfirst, -⟩ := (stages_agree (fun _ => 1) 9 faultyText).2.1 _ hfaulty
    cases hfaults.symm.trans hst
    obtain ⟨u, st', hst', -, -, -, hrun⟩ := (stages_agree (fun _ => 1) 9 returningText).2.1 _ hreturning
    cases hnone.symm.trans hst'
    refine ⟨?_, ?_, ?_⟩
    · rw [hlist]
      rfl
    · rw [hfirst _ rfl]
      cbv
    · have hvalue : returningScript.run 9 {} =
          .ok (.bool true) { memory := Scopes.empty.push "program", output := "one\n" } := by cbv
      obtain ⟨shown, hshown, hreport⟩ := (hrun rfl _ _ hvalue).2.1 (by simp) trivial
      cases hshown
      rw [hreport]
      cbv

/-- A run that ends with a value of too many digits. -/
def EndsOverlong (r : EStateM.Result Run.Stop Machine Value) : Prop :=
  ∃ v m, r = .ok v m ∧ ¬ v.Writable

instance : (r : EStateM.Result Run.Stop Machine Value) → Decidable (EndsOverlong r)
  | .ok v m => decidable_of_iff (¬ v.Writable)
      ⟨fun h => ⟨v, m, rfl, h⟩, fun ⟨_, _, h, hv⟩ => by cases h; exact hv⟩
  | .error _ _ => .isFalse nofun

def colouredText : String := "\"\x1b[31m\";"

def colouredToken : Token := ⟨.text "\x1b[31m", 1, 1, 0⟩

/-- Ten is squared 13 times. -/
def squaringText : String := "x = 10; for i = 0:13 x = x * x; return x;"

def squaringScript : Stmt :=
  let at1 : Span := ⟨1, 1⟩
  .block at1 [.assign at1 (.name at1 "x") (.constant at1 (.int 10)),
    .forLoop at1 "i" at1 (.range at1 (.constant at1 (.int 0)) (.constant at1 (.int 13)))
      (.assign at1 (.name at1 "x") (.operator at1 "*" [.name at1 "x", .name at1 "x"])),
    .instruction at1 "return" [.name at1 "x"]]

/-- Codes in a message or in a value are not written, nor is a value of too many digits. -/
theorem codes_and_digits_lost :
    ((Script.parse 1 (source colouredText)).script = .error (.unexpected colouredToken) ∧
      report (fun _ => 0) 9 .parse colouredText ≠
        { err := (Diagnostic.unexpected colouredToken).text ++ "\n" }) ∧
    report (fun _ => 0) 9 .run "return \"\x1b[31mx\";" = { out := "Execution returned: x\n" } ∧
    (Script.parse 1 (source squaringText)).script = .ok squaringScript ∧
      squaringScript.check .collecting {} = .ok .none {} ∧
      ∃ v m, squaringScript.run 20 {} = .ok v m ∧ v ≠ .none ∧
        report (fun _ => 0) 20 .run squaringText =
          { exit := 1, out := m.output,
            failure := some (.running (.failed .tooManyDigitsToWrite)) } := by
  have hred : (Script.parse 1 (source colouredText)).script =
      .error (.unexpected colouredToken) := by cbv
  have hparse : (Script.parse 1 (source squaringText)).script = .ok squaringScript := by cbv
  have hcheck : squaringScript.check .collecting {} = .ok .none {} := by cbv
  refine ⟨⟨hred, ?_⟩, by cbv, hparse, hcheck, ?_⟩
  · intro h
    have herr : (report (fun _ => 0) 9 .parse colouredText).err =
      "Parser error (line 1): Unexpected token (STRING, '')\n" := by cbv
    rw [h] at herr
    exact absurd herr (by decide)
  · have hover : EndsOverlong (squaringScript.run 20 {}) := by decide +kernel
    obtain ⟨v, m, hrun, hv⟩ := hover
    have hraise : squaringScript.check .raising {} = .ok .none {} := by cbv
    refine ⟨v, m, hrun, ?_, ?_⟩
    · rintro rfl
      exact hv trivial
    · rw [report_run hparse hraise hrun, showRun_of_not_writable hv]

end Command

end MatScript
