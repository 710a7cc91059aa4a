import Reckoner.Proofs.Session.Literal

/-!
# Continuing a session

A session never fails, whatever lines it is given. What it remembers is always the displayed result
of a finite number, so there is a literal to continue from. A line that begins with an operator is
read as the same line behind the number one would be, with the number of the literal in its place;
any other line, and any line without a result to continue from, is a problem of its own.

## Main results

* `exists_take_eq`: one line keeps the invariant `Remembers`.
* `exists_takeAll_eq`: so do any number of lines.
* `session_continues`: what the next line does after any lines.
-/

namespace Reckoner

/-! ## Blanks -/

namespace Text

theorem dropBlanks_dropWhile (cs : List Char) :
    dropBlanks (cs.dropWhile isBlank) = dropBlanks cs := by
  induction cs with
  | nil => rfl
  | cons c cs ih =>
      cases hc : isBlank c with
      | true => rw [List.dropWhile_cons_of_pos hc, ih, dropBlanks_cons_of_blank hc]
      | false => rw [List.dropWhile_cons_of_neg (by simp [hc])]

theorem dropBlanks_reverse (cs : List Char) : dropBlanks cs.reverse = (dropBlanks cs).reverse := by
  simp [dropBlanks]

theorem dropBlanks_trim (line : String) :
    dropBlanks (trim line).toList = dropBlanks line.toList := by
  rw [trim, String.toList_ofList, trimBy, dropBlanks_reverse, dropBlanks_dropWhile,
    dropBlanks_reverse, dropBlanks_dropWhile, List.reverse_reverse]

/-- The trimmed text begins where the blanks at the start of the text end. -/
theorem head?_trim (line : String) :
    (trim line).toList.head? = (line.toList.dropWhile isBlank).head? := by
  rw [trim, String.toList_ofList, trimBy]
  cases hcs : line.toList.dropWhile isBlank with
  | nil => rfl
  | cons c rest =>
      have hc : isBlank c = false := by
        have := List.head?_dropWhile_not isBlank line.toList
        rw [hcs] at this
        simpa using this
      have hend : ([c].dropWhile isBlank) = [c] := List.dropWhile_cons_of_neg (by simp [hc])
      rw [List.reverse_cons, List.dropWhile_append, hend]
      split <;> simp

end Text

namespace Session

/-- The first character of the line that is no blank is an operator. -/
def StartsWithOperator (line : String) : Prop :=
  ∃ op : Operator, (line.toList.dropWhile Text.isBlank).head? = some op.char

theorem continues_trim_iff (line : String) :
    continues (Text.trim line).toList = true ↔ StartsWithOperator line := by
  have hhead := Text.head?_trim line
  rw [StartsWithOperator, ← hhead]
  cases (Text.trim line).toList with
  | nil => simp [continues]
  | cons c rest =>
      simp only [continues, beq_iff_eq, List.head?_cons, Option.some.injEq]
      constructor
      · intro h
        obtain ⟨op, hop⟩ := CharKind.exists_operator_of_ofChar h
        exact ⟨op, hop.symm⟩
      · rintro ⟨op, rfl⟩
        exact CharKind.ofChar_operator op

/-- Such a line does not go on with a literal. -/
theorem endsLiteral_dropBlanks {line : String} (h : StartsWithOperator line) :
    Literal.EndsLiteral (Text.dropBlanks line.toList) := by
  obtain ⟨op, hop⟩ := h
  intro c hc
  rw [← Text.dropBlanks_dropWhile] at hc
  cases hcs : line.toList.dropWhile Text.isBlank with
  | nil =>
      rw [hcs] at hop
      cases hop
  | cons d rest =>
      rw [hcs] at hop hc
      obtain rfl := Option.some.inj hop
      have hblank : Text.isBlank op.char = false := by cases op <;> decide
      rw [Text.dropBlanks_cons_of_not_blank hblank] at hc
      obtain rfl := Option.some.inj hc
      cases op <;> decide

end Session

/-! ## Answering one problem -/

/-- The answer that a value or a fault gives, under this number of places. -/
def Answer.ofOutcome (places : Int) (problem : String) : Except Fault Binary64 → Answer
  | .ok x => .ok (Display.result places x)
  | .error fault => .error (Report.ofFault fault (some problem))

/-- Whether products need not be written. -/
def Settings.writesProducts (settings : Settings) : Bool :=
  (settings.get Settings.productsName).isTruthy

section Session

variable {store : Settings.Store} {settings : Settings} {places : Int}

theorem Shown.ofProblem_text (hload : store.load = .ok settings)
    (hplaces : settings.get Settings.placesName = .integer places) (problem : String) :
    Shown.ofProblem store (.text problem) = .ok (Shown.ofAnswer settings
      (.ofOutcome places problem (Question.value problem settings.writesProducts).outcome)) := by
  refine Shown.ofProblem_of_answer hload ?_
  have hanswer := Question.outcome_answer_text settings problem .null .null
  simp only [Question.choose, hplaces, Display.placesOf, Except.map] at hanswer
  rw [Question.outcome_answerFrom hload, Question.ofProblem, hanswer, Settings.writesProducts]
  cases (Question.value problem (settings.get Settings.productsName).isTruthy).outcome <;> rfl

namespace Session

/-- The turn that answers a problem. -/
def turnOf (settings : Settings) (places : Int) (problem : String) : Turn :=
  let shown := Shown.ofAnswer settings
    (.ofOutcome places problem (Question.value problem settings.writesProducts).outcome)
  ⟨problem, shown, .answered shown.value?⟩

/-- What a session remembers is the displayed result of a finite number. -/
def Remembers (places : Int) (session : Session) : Prop :=
  ∀ last, session.last? = some last →
    ∃ x : Binary64, x.isFinite = true ∧ last = Display.result places x

theorem remembers_fresh : Remembers places .fresh := by
  intro last h
  cases h

theorem remembers_turnOf (problem : String) :
    Remembers places (turnOf settings places problem).session := by
  intro last h
  simp only [turnOf, last?, Shown.value?, Shown.ofAnswer] at h
  cases hvalue : (Question.value problem settings.writesProducts).outcome with
  | error fault =>
      rw [hvalue] at h
      cases h
  | ok x =>
      rw [hvalue] at h
      exact ⟨x, Question.isFinite_of_value hvalue, (Option.some.inj h).symm⟩

theorem take_eq (hload : store.load = .ok settings)
    (hplaces : settings.get Settings.placesName = .integer places) {session : Session}
    {line problem : String} (hproblem : session.problemOf line = .ok problem) :
    session.take store line = .ok (turnOf settings places problem) := by
  rw [take, hproblem]
  show (Shown.ofProblem store (.text problem) >>= _) = _
  rw [Shown.ofProblem_text hload hplaces]
  rfl

/-- One line is answered, and what is remembered is again a displayed result. -/
theorem exists_take_eq (hload : store.load = .ok settings)
    (hplaces : settings.get Settings.placesName = .integer places) {session : Session}
    (hremembers : session.Remembers places) (line : String) :
    ∃ turn, session.take store line = .ok turn ∧ turn.session.Remembers places := by
  have hproblem : ∃ problem, session.problemOf line = .ok problem := by
    rw [problemOf]
    cases hlast : session.last? with
    | none => exact ⟨_, rfl⟩
    | some last =>
        obtain ⟨x, hx, rfl⟩ := hremembers last hlast
        obtain ⟨literal, value, hliteral, -⟩ := exists_literal hx places
        simp only
        split
        · rw [hliteral]
          exact ⟨_, rfl⟩
        · exact ⟨_, rfl⟩
  obtain ⟨problem, hproblem⟩ := hproblem
  exact ⟨_, take_eq hload hplaces hproblem, remembers_turnOf problem⟩

/-! ## Any number of lines -/

/-- The session after these turns. -/
def after (session : Session) (turns : List Turn) : Session :=
  (turns.getLast?.map Turn.session).getD session

theorem after_cons (session : Session) (turn : Turn) (turns : List Turn) :
    session.after (turn :: turns) = turn.session.after turns := by
  cases hlast : turns.getLast? <;> simp [after, List.getLast?_cons, hlast]

theorem exists_takeAll_eq (hload : store.load = .ok settings)
    (hplaces : settings.get Settings.placesName = .integer places) (lines : List String) :
    ∀ {session : Session}, session.Remembers places →
      ∃ turns, session.takeAll store lines = .ok turns ∧
        (session.after turns).Remembers places := by
  induction lines with
  | nil =>
      intro session hremembers
      exact ⟨[], rfl, hremembers⟩
  | cons line lines ih =>
      intro session hremembers
      obtain ⟨turn, htake, hturn⟩ := exists_take_eq hload hplaces hremembers line
      obtain ⟨turns, htakeAll, hturns⟩ := ih hturn
      refine ⟨turn :: turns, ?_, by rwa [after_cons]⟩
      rw [takeAll, htake]
      show (turn.session.takeAll store lines >>= _) = _
      rw [htakeAll]
      rfl

/-! ## The next line -/

/-- The turn does with the number `value` what the line does behind the number one: it evaluates the
same tokens behind that number, or fails with the same kind and code. -/
structure Turn.Continues (settings : Settings) (places : Int) (value : Binary64) (line : String)
    (turn : Turn) : Prop where
  read : ∀ tokens, Token.read settings.writesProducts (Text.dropBlanks ('1' :: line.toList)) =
      .ok tokens →
    ∃ tail, tokens = .number (.ofNat 1) :: tail ∧
      Token.read settings.writesProducts (Text.dropBlanks turn.problem.toList) =
        .ok (.number value :: tail) ∧
      turn.shown.answer =
        .ofOutcome places turn.problem (Reduction.value (.number value :: tail)).outcome
  rejected : ∀ fault, Token.read settings.writesProducts
      (Text.dropBlanks ('1' :: line.toList)) = .error fault →
    ∃ report, turn.shown.answer = .error report ∧ report.kind = fault.kind ∧
      report.code = .text fault.code

theorem readsNumber_one : Token.ReadsNumber ['1'] (.ofNat 1) := by
  have hvalue : Literal.value ['1'] = .ofNat 1 := by decide +kernel
  rw [← hvalue]
  have hdigits : ∀ c ∈ ['1'], c.isDigit = true := List.forall_mem_singleton.2 rfl
  exact Token.readsNumber_numeral
    ⟨['1'], Literal.inLanguage_iff.2 (.inl ⟨by decide, hdigits⟩), by decide +kernel⟩

/-- A literal in front of a line that begins with an operator is read as its own number, and the
line as it is read behind the number one. -/
theorem continues_turnOf (settings : Settings) (places : Int) {literal : List Char}
    {value : Binary64} (hliteral : Token.ReadsNumber literal value)
    (hblank : ∀ c ∈ literal, Text.isBlank c = false) {line : String}
    (hline : StartsWithOperator line) :
    (turnOf settings places (String.ofList literal ++ Text.trim line)).Continues settings places
      value line := by
  have hproblem : Text.dropBlanks (String.ofList literal ++ Text.trim line).toList =
      literal ++ Text.dropBlanks line.toList := by
    rw [String.toList_append, String.toList_ofList, ← Text.dropBlanks_trim line,
      Text.dropBlanks_append, Text.dropBlanks_of_no_blank hblank]
  have hone : Text.dropBlanks ('1' :: line.toList) = ['1'] ++ Text.dropBlanks line.toList := rfl
  have halike := hliteral.alike readsNumber_one settings.writesProducts
    (endsLiteral_dropBlanks hline)
  rw [← hproblem, ← hone] at halike
  have hanswer : (turnOf settings places (String.ofList literal ++ Text.trim line)).shown.answer =
      .ofOutcome places (String.ofList literal ++ Text.trim line)
        (Question.value (String.ofList literal ++ Text.trim line)
          settings.writesProducts).outcome := rfl
  rw [Question.outcome_value] at hanswer
  generalize hread : Token.read settings.writesProducts (Text.dropBlanks ('1' :: line.toList)) =
    read at halike
  generalize hread' : Token.read settings.writesProducts
    (Text.dropBlanks (String.ofList literal ++ Text.trim line).toList) = read' at halike hanswer
  cases halike with
  | ok hrelated =>
      obtain ⟨tail, rfl, rfl⟩ := hrelated
      refine ⟨fun tokens htokens => ?_, fun fault hfault => ?_⟩
      · rw [hread] at htokens
        exact ⟨tail, (Except.ok.inj htokens).symm, hread', hanswer⟩
      · rw [hread] at hfault
        cases hfault
  | error hkind hcode =>
      refine ⟨fun tokens htokens => ?_, fun fault hfault => ?_⟩
      · rw [hread] at htokens
        cases htokens
      · rw [hread] at hfault
        obtain rfl := Except.error.inj hfault
        exact ⟨_, hanswer, hkind, congrArg _ hcode⟩

/-- A line that begins with an operator continues from the result of the session. -/
theorem take_continues (hload : store.load = .ok settings)
    (hplaces : settings.get Settings.placesName = .integer places) {session : Session}
    (hremembers : session.Remembers places) {last : String} (hlast : session.last? = some last) :
    ∃ literal value, literalOf last = .ok literal ∧ value.isFinite = true ∧
      (∀ writesProducts, Token.read writesProducts literal.toList = .ok [.number value]) ∧
      ∀ line, StartsWithOperator line →
        ∃ turn, session.take store line = .ok turn ∧
          turn.problem = literal ++ Text.trim line ∧
          turn.Continues settings places value line := by
  obtain ⟨x, hx, rfl⟩ := hremembers last hlast
  obtain ⟨literal, value, hliteral, hreads, hfinite, hblank⟩ := exists_literal hx places
  refine ⟨_, value, hliteral, hfinite, ?_, ?_⟩
  · intro writesProducts
    rw [String.toList_ofList]
    exact hreads.read_eq writesProducts
  · intro line hline
    have hproblem : session.problemOf line = .ok (String.ofList literal ++ Text.trim line) := by
      rw [problemOf, hlast]
      simp only
      rw [if_pos ((continues_trim_iff line).2 hline), hliteral]
      rfl
    exact ⟨_, take_eq hload hplaces hproblem, rfl,
      continues_turnOf settings places hreads hblank hline⟩

/-- Any other line is a problem of its own. -/
theorem take_afresh (hload : store.load = .ok settings)
    (hplaces : settings.get Settings.placesName = .integer places) {session : Session}
    {line : String} (hother : session.last? = none ∨ ¬ StartsWithOperator line) :
    session.take store line = Session.fresh.take store line ∧
      Session.fresh.take store line =
        (Shown.ofProblem store (.text (Text.trim line))).map fun shown =>
          ⟨Text.trim line, shown, .answered shown.value?⟩ := by
  have hproblem : session.problemOf line = .ok (Text.trim line) := by
    rw [problemOf]
    cases hlast : session.last? with
    | none => rfl
    | some last =>
        have hline := hother.resolve_left (by simp [hlast])
        exact if_neg fun h => hline ((continues_trim_iff line).1 h)
  have hfresh : Session.fresh.problemOf line = .ok (Text.trim line) := rfl
  rw [take_eq hload hplaces hproblem, take_eq hload hplaces hfresh,
    Shown.ofProblem_text hload hplaces]
  exact ⟨rfl, rfl⟩

/-- A session under settings that can be loaded, with an integer for the number of places, answers
any lines. After them, if a result was delivered last, it has a literal that is read as one finite
number, and a line that begins with an operator continues from that number. In every other state,
and for every other line, the line is answered as in a fresh session, as a problem of its own. -/
theorem session_continues (hload : store.load = .ok settings)
    (hplaces : settings.get Settings.placesName = .integer places) (lines : List String) :
    ∃ turns, takeAll store .fresh lines = .ok turns ∧
      (∀ last, (after .fresh turns).last? = some last →
        ∃ literal value, literalOf last = .ok literal ∧ value.isFinite = true ∧
          (∀ writesProducts, Token.read writesProducts literal.toList = .ok [.number value]) ∧
          ∀ line, StartsWithOperator line →
            ∃ turn, (after .fresh turns).take store line = .ok turn ∧
              turn.problem = literal ++ Text.trim line ∧
              turn.Continues settings places value line) ∧
      ∀ line, (after .fresh turns).last? = none ∨ ¬ StartsWithOperator line →
        (after .fresh turns).take store line = Session.fresh.take store line ∧
          Session.fresh.take store line =
            (Shown.ofProblem store (.text (Text.trim line))).map fun shown =>
              ⟨Text.trim line, shown, .answered shown.value?⟩ := by
  obtain ⟨turns, htakeAll, hremembers⟩ := exists_takeAll_eq hload hplaces lines remembers_fresh
  exact ⟨turns, htakeAll, fun _ hlast => take_continues hload hplaces hremembers hlast,
    fun _ hother => take_afresh hload hplaces hother⟩

/-- Without a settings file, after a difference that is negative. -/
theorem negative_result_continues :
    ∃ turns, takeAll .empty .fresh ["2-5"] = .ok turns ∧
      (after .fresh turns).last? = some "-3" ∧
      ∃ literal value, literalOf "-3" = .ok literal ∧ value.isFinite = true ∧
        (∀ writesProducts, Token.read writesProducts literal.toList = .ok [.number value]) ∧
        ∀ line, StartsWithOperator line →
          ∃ turn, (after .fresh turns).take .empty line = .ok turn ∧
            turn.problem = literal ++ Text.trim line ∧
            turn.Continues Settings.defaults 2 value line := by
  have hload : Settings.Store.empty.load = .ok Settings.defaults := rfl
  have hplaces : Settings.defaults.get Settings.placesName = .integer 2 := rfl
  obtain ⟨turns, htakeAll, hcontinues, -⟩ := session_continues hload hplaces ["2-5"]
  have hlast : (after .fresh turns).last? = some "-3" := by
    have hall : (takeAll .empty .fresh ["2-5"]).map (fun turns => (after .fresh turns).last?) =
        .ok (some "-3") := by decide +kernel
    rw [htakeAll] at hall
    exact Except.ok.inj hall
  exact ⟨turns, htakeAll, hlast, hcontinues "-3" hlast⟩

end Session

end Session

end Reckoner
