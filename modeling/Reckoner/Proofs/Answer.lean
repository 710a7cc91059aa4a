import Reckoner.Proofs.Faults

/-!
# Every text is answered

With settings that can be loaded and an integer for the number of places, nothing refuses a text: it
has a displayed value, or a report of a fault that a text can have. A report carries the problem as
it was given. Showing the answer and calculating carry the same outcome.

## Main results

* `exists_answer_of_text`: the answer to a text.
* `text_is_answered`: the same, with what is shown for the answer and what is calculated.
-/

namespace Reckoner

/-- The report of a fault that a text can have, with that text. -/
structure Report.IsOfText (problem : String) (report : Report) : Prop where
  equation : report.equation = some problem
  listed : ∃ code, report.code = .text code ∧ (report.kind, code) ∈ Fault.textCodes

namespace Report

theorem isOfText_ofFault {fault : Fault} (h : fault.IsOfText) (problem : String) :
    (ofFault fault (some problem)).IsOfText problem :=
  ⟨rfl, fault.code, rfl, h⟩

/-- The codes of problems that are no text and of unknown errors are not among those of texts, and
no text has a fault of the general kind. -/
theorem IsOfText.excluded {problem : String} {report : Report} (h : report.IsOfText problem) :
    report.code ≠ .text "3012" ∧ report.code ≠ .text "9999" ∧ report.kind ≠ .general := by
  obtain ⟨code, hcode, hlisted⟩ := h.listed
  have htable : ∀ entry ∈ Fault.textCodes,
      entry.2 ≠ "3012" ∧ entry.2 ≠ "9999" ∧ entry.1 ≠ .general := by decide
  obtain ⟨hequation, hunknown, hgeneral⟩ := htable _ hlisted
  rw [hcode]
  exact ⟨fun h => hequation (Code.text.inj h), fun h => hunknown (Code.text.inj h), hgeneral⟩

end Report

/-- What a text can be answered with. -/
def Answer.IsOfText (problem : String) : Answer → Prop
  | .ok _ => True
  | .error report => report.IsOfText problem

/-! ## Answering -/

namespace Question

variable {store : Settings.Store} {settings : Settings}

theorem outcome_answerFrom (hload : store.load = .ok settings) (question : Question) :
    (question.answerFrom store).outcome = (question.answer settings).outcome := by
  rw [answerFrom, Run.outcome_bind, Run.outcome_ofExcept, hload, Except.bind]

/-- The answer to a text is the report of its fault, or its value once the places are known. -/
theorem outcome_answer_text (settings : Settings) (problem : String) (places products : Json) :
    (answer settings ⟨.text problem, places, products⟩).outcome =
      match (value problem
        (choose products (settings.get Settings.productsName)).isTruthy).outcome with
      | .error fault => .ok (.error (Report.ofFault fault (some problem)))
      | .ok x => (Display.placesOf (choose places (settings.get Settings.placesName))).map
          fun d => .ok (Display.result d x) := by
  simp only [answer, Run.outcome_bind, Run.outcome_settle]
  cases (value problem (choose products (settings.get Settings.productsName)).isTruthy).outcome with
  | error fault => rfl
  | ok x =>
      simp only [Except.bind, Run.outcome_bind, Run.outcome_ofExcept]
      cases Display.placesOf (choose places (settings.get Settings.placesName)) with
      | error refusal => rfl
      | ok d => rfl

/-- A text is answered when the settings can be loaded and the number of places is an integer. -/
theorem exists_answer_of_text (hload : store.load = .ok settings) (problem : String)
    (places products : Json) {d : Int}
    (hplaces : choose places (settings.get Settings.placesName) = .integer d) :
    ∃ answer, (answerFrom store ⟨.text problem, places, products⟩).outcome = .ok answer ∧
      Answer.IsOfText problem answer := by
  rw [outcome_answerFrom hload, outcome_answer_text, hplaces]
  cases hvalue : (value problem
      (choose products (settings.get Settings.productsName)).isTruthy).outcome with
  | error fault => exact ⟨_, rfl, Report.isOfText_ofFault (isOfText_of_value hvalue) problem⟩
  | ok x => exact ⟨_, rfl, trivial⟩

end Question

/-! ## Showing and calculating -/

/-- The answer is shown for what it is: its text is the value, or its report is the error, and there
is exactly one of the two. -/
structure Shown.Carries (shown : Shown) (answer : Answer) : Prop where
  outcome : shown.answer = answer
  value_iff : ∀ text, shown.value? = some text ↔ answer = .ok text
  report_iff : ∀ report, shown.report? = some report ↔ answer = .error report
  exclusive : shown.value?.isSome = !shown.report?.isSome

theorem Shown.carries_ofAnswer (settings : Settings) (answer : Answer) :
    (ofAnswer settings answer).Carries answer := by
  cases answer with
  | ok text =>
      refine ⟨rfl, ?_, ?_, rfl⟩
      · intro other
        show some text = some other ↔ Except.ok text = Except.ok other
        simp
      · intro report
        show none = some report ↔ Except.ok text = Except.error report
        simp
  | error report =>
      refine ⟨rfl, ?_, ?_, rfl⟩
      · intro text
        show none = some text ↔ Except.error report = Except.ok text
        simp
      · intro other
        show some report = some other ↔ Except.error report = Except.error other
        simp

section Outcomes

variable {store : Settings.Store} {problem : Problem} {answer : Answer}

theorem Shown.ofProblem_of_answer {settings : Settings} (hload : store.load = .ok settings)
    (h : ((Question.ofProblem problem).answerFrom store).outcome = .ok answer) :
    ofProblem store problem = .ok (ofAnswer settings answer) := by
  rw [ofProblem, h, hload]
  rfl

theorem calculate_of_answer
    (h : ((Question.ofProblem problem).answerFrom store).outcome = .ok answer) :
    calculate store problem = answer.mapError Interruption.reported := by
  rw [calculate, h]
  cases answer <;> rfl

end Outcomes

/-- With settings that can be loaded every text is answered, whatever is said about products, as
long as the number of places is an integer: by a displayed value, or by a report of a fault that a
text can have. Under the places of the settings, what is shown for the answer carries exactly one of
the two, and a calculation has that value or is interrupted by that report. -/
theorem text_is_answered {store : Settings.Store} {settings : Settings}
    (hload : store.load = .ok settings) (problem : String) :
    (∀ (places products : Json) (d : Int),
        Question.choose places (settings.get Settings.placesName) = .integer d →
          ∃ answer, (Question.answerFrom store ⟨.text problem, places, products⟩).outcome =
              .ok answer ∧ Answer.IsOfText problem answer) ∧
      (∀ d : Int, settings.get Settings.placesName = .integer d →
        ∃ answer shown,
          ((Question.ofProblem (.text problem)).answerFrom store).outcome = .ok answer ∧
            Answer.IsOfText problem answer ∧
            Shown.ofProblem store (.text problem) = .ok shown ∧ shown.Carries answer ∧
            calculate store (.text problem) = answer.mapError Interruption.reported) ∧
      ∀ report : Report, report.IsOfText problem →
        report.code ≠ .text "3012" ∧ report.code ≠ .text "9999" ∧ report.kind ≠ .general := by
  refine ⟨?_, ?_, ?_⟩
  · intro places products d hplaces
    exact Question.exists_answer_of_text hload problem places products hplaces
  · intro d hplaces
    obtain ⟨answer, houtcome, htext⟩ :=
      Question.exists_answer_of_text hload problem .null .null hplaces
    exact ⟨answer, Shown.ofAnswer settings answer, houtcome, htext,
      Shown.ofProblem_of_answer hload houtcome, Shown.carries_ofAnswer settings answer,
      calculate_of_answer houtcome⟩
  · intro report hreport
    exact hreport.excluded

/-- Without a settings file the number of places is 2: a division by zero is answered, shown and
raised, and the places may also be given with the problem. -/
theorem division_by_zero_is_answered :
    (∃ answer, (Question.answerFrom .empty ⟨.text "1/0", .integer 5, .bool false⟩).outcome =
        .ok answer ∧ Answer.IsOfText "1/0" answer) ∧
      ∃ answer shown,
        ((Question.ofProblem (.text "1/0")).answerFrom .empty).outcome = .ok answer ∧
          Answer.IsOfText "1/0" answer ∧
          Shown.ofProblem .empty (.text "1/0") = .ok shown ∧ shown.Carries answer ∧
          calculate .empty (.text "1/0") = answer.mapError Interruption.reported := by
  have hload : Settings.Store.empty.load = .ok Settings.defaults := rfl
  have hplaces : Settings.defaults.get Settings.placesName = .integer 2 := rfl
  exact ⟨(text_is_answered hload "1/0").1 (.integer 5) (.bool false) 5 rfl,
    (text_is_answered hload "1/0").2.1 2 hplaces⟩

end Reckoner
