import Reckoner.CommandLine
import Reckoner.Proofs.Session.Continuation
import Reckoner.Proofs.Settings.Override

/-!
# A conversation is a session

Under settings with which every problem is answered, a conversation ends, and what it prints is what
one session answers to the lines that ask something: those up to the first request to quit that are
neither blank nor that request. The command without arguments prints the same, unless the log level
is set to one of two names for other parts of the logging system: these are looked up like a level,
found, and refused, while every other name that is no level stands for the usual one.

A session remembers a displayed result only if it can go on from it, which every turn keeps
(`CanContinue`). This does not depend on how the number of places is set.

## Main results

* `Session.exists_take`: one line is answered, and the session can go on.
* `Conversation.exists_continueWith`: what a conversation over any lines consists of, from any such
  session on.
* `Settings.LogLevel.ofSetting_eq_ok_iff`: which settings of the log level are refused.
* `CommandLine.conversation_is_session`: a conversation, a session and the command over the same
  lines.
-/

namespace Reckoner

/-! ## Sessions that can go on -/

/-- A problem is answered only under settings that can be loaded. -/
theorem Shown.exists_load {store : Settings.Store} {problem : Problem} {shown : Shown}
    (h : ofProblem store problem = .ok shown) : ∃ settings, store.load = .ok settings := by
  cases hload : store.load with
  | ok settings => exact ⟨settings, rfl⟩
  | error refusal =>
      rw [ofProblem, Question.answerFrom, Run.outcome_bind, Run.outcome_ofExcept, hload] at h
      cases h

/-- A displayed value is the result of a finite number. -/
theorem Shown.exists_result_of_value? {store : Settings.Store} {problem text : String}
    {shown : Shown} (h : ofProblem store (.text problem) = .ok shown)
    (hvalue : shown.value? = some text) :
    ∃ (places : Int) (x : Binary64), x.isFinite = true ∧ text = Display.result places x := by
  obtain ⟨settings, hload⟩ := exists_load h
  rw [ofProblem, Question.outcome_answerFrom hload, Question.ofProblem,
    Question.outcome_answer_text, hload] at h
  cases houtcome : (Question.value problem
      (Question.choose .null (settings.get Settings.productsName)).isTruthy).outcome with
  | error fault =>
      rw [houtcome] at h
      obtain rfl := Except.ok.inj h
      cases hvalue
  | ok x =>
      rw [houtcome] at h
      cases hplaces : Display.placesOf
          (Question.choose .null (settings.get Settings.placesName)) with
      | error refusal =>
          rw [hplaces] at h
          cases h
      | ok places =>
          rw [hplaces] at h
          obtain rfl := Except.ok.inj h
          exact ⟨places, x, Question.isFinite_of_value houtcome, (Option.some.inj hvalue).symm⟩

namespace Session

variable {store : Settings.Store}

/-- There is a literal for what the session remembers. -/
def CanContinue (session : Session) : Prop :=
  ∀ last, session.last? = some last → ∃ literal, literalOf last = .ok literal

theorem canContinue_fresh : CanContinue .fresh := by
  intro last h
  cases h

theorem exists_problemOf {session : Session} (h : session.CanContinue) (line : String) :
    ∃ problem, session.problemOf line = .ok problem := by
  rw [problemOf]
  cases hlast : session.last? with
  | none => exact ⟨_, rfl⟩
  | some last =>
      obtain ⟨literal, hliteral⟩ := h last hlast
      simp only
      split
      · rw [hliteral]
        exact ⟨_, rfl⟩
      · exact ⟨_, rfl⟩

/-- One line is answered, and the session can go on. -/
theorem exists_take
    (hanswers : ∀ problem, ∃ shown, Shown.ofProblem store (.text problem) = .ok shown)
    {session : Session} (h : session.CanContinue) (line : String) :
    ∃ turn, session.take store line = .ok turn ∧ turn.session.CanContinue := by
  obtain ⟨problem, hproblem⟩ := exists_problemOf h line
  obtain ⟨shown, hshown⟩ := hanswers problem
  refine ⟨⟨problem, shown, .answered shown.value?⟩, ?_, ?_⟩
  · rw [take, hproblem]
    show (Shown.ofProblem store (.text problem) >>= _) = _
    rw [hshown]
    rfl
  · intro last hlast
    obtain ⟨places, x, hx, rfl⟩ := Shown.exists_result_of_value? hshown hlast
    obtain ⟨literal, -, hliteral, -⟩ := exists_literal hx places
    exact ⟨_, hliteral⟩

end Session

/-! ## The lines of a conversation -/

namespace Conversation

/-- Whether a line asks something. -/
def isAsked (line : String) : Bool := !isQuit line && !isBlankLine line

/-- The lines up to the first request to quit, with it. -/
def consumed (lines : List String) : List String := lines.take (lines.findIdx isQuit + 1)

/-- The lines that ask something before the first request to quit. -/
def asked (lines : List String) : List String := (consumed lines).filter isAsked

/-- What a line is answered with: the problem that it was taken for and its value, or what is shown
for the error. -/
def answerLine (turn : Session.Turn) : Text.Points :=
  match turn.shown.answer with
  | .ok _ => Text.Points.ofString (turn.problem ++ " = ") ++ turn.shown.display.plain
  | .error _ => turn.shown.display.plain

/-- The conversation over these lines consists of these turns. -/
structure Follows (lines : List String) (turns : List Session.Turn)
    (conversation : Conversation) : Prop where
  quit : conversation.quit = lines.any isQuit
  unread : conversation.unread = lines.length - (consumed lines).length
  /-- Exactly the lines that ask something are replied to. -/
  replied : conversation.replies.map Option.isSome = (consumed lines).map isAsked
  replies : conversation.replies.filterMap id = turns.map answerLine

/-- What is printed for a line that was read: the reply, if there is one, on a line of its own. -/
def answerText (reply? : Option Text.Points) : Text.Points :=
  reply?.elim [] (· ++ Text.Points.ofString "\n")

/-- Behind the heading, the answers of these turns are printed. With the prompts it is the same,
with a prompt before each line that was read and before the one that did not come. -/
structure Prints (turns : List Session.Turn) (conversation : Conversation) : Prop where
  printed : conversation.printed =
    Text.Points.ofString "Enter a problem ('q' to quit):\n" ++
      turns.flatMap fun turn => answerLine turn ++ Text.Points.ofString "\n"
  transcript : conversation.transcript =
    Text.Points.ofString "Enter a problem ('q' to quit):\n" ++
      conversation.replies.flatMap (fun reply? => Text.Points.ofString "> " ++ answerText reply?) ++
        if conversation.quit then [] else Text.Points.ofString "> "

section Lines

variable {line : String} (lines : List String)

theorem consumed_of_quit (h : isQuit line = true) : consumed (line :: lines) = [line] := by
  rw [consumed, List.findIdx_cons, h]
  rfl

theorem consumed_of_not_quit (h : isQuit line = false) :
    consumed (line :: lines) = line :: consumed lines := by
  rw [consumed, List.findIdx_cons, h]
  rfl

/-- A blank line does not ask to quit. -/
theorem isQuit_of_isBlankLine (h : isBlankLine line = true) : isQuit line = false := by
  have htrim : Text.trim line = "" := by simpa [isBlankLine] using h
  rw [isQuit, htrim]
  decide

theorem asked_of_quit (h : isQuit line = true) : asked (line :: lines) = [] := by
  rw [asked, consumed_of_quit lines h, List.filter_cons_of_neg (by simp [isAsked, h])]
  rfl

theorem asked_of_asks (hquit : isQuit line = false) (hblank : isBlankLine line = false) :
    asked (line :: lines) = line :: asked lines := by
  rw [asked, consumed_of_not_quit lines hquit,
    List.filter_cons_of_pos (by simp [isAsked, hquit, hblank])]
  rfl

/-- Blank lines are not among those that ask something. -/
theorem asked_blank (h : isBlankLine line = true) (front back : List String) :
    asked (front ++ line :: back) = asked (front ++ back) := by
  induction front with
  | nil =>
      rw [List.nil_append, asked, consumed_of_not_quit back (isQuit_of_isBlankLine h),
        List.filter_cons_of_neg (by simp [isAsked, h])]
      rfl
  | cons first front ih =>
      cases hquit : isQuit first with
      | true => simp only [List.cons_append, asked, consumed_of_quit _ hquit]
      | false =>
          unfold asked at ih ⊢
          simp only [List.cons_append, consumed_of_not_quit _ hquit, List.filter_cons, ih]

end Lines

/-! ## Step by step -/

section Steps

variable {store : Settings.Store} {session : Session} {line : String} {lines : List String}
  {turn : Session.Turn} {turns : List Session.Turn} {conversation : Conversation}

theorem step_of_quit (h : isQuit line = true) : step store session line = .ok .quit := by
  rw [step, h]
  rfl

theorem step_of_blank (h : isBlankLine line = true) : step store session line = .ok .skip := by
  rw [step, isQuit_of_isBlankLine h, h]
  rfl

theorem reply_eq_answerLine (turn : Session.Turn) : reply turn = answerLine turn := by
  unfold reply answerLine Shown.isOk
  cases turn.shown.answer <;> rfl

theorem step_of_take (hquit : isQuit line = false) (hblank : isBlankLine line = false)
    (htake : session.take store line = .ok turn) :
    step store session line = .ok (.reply (answerLine turn) turn.session) := by
  rw [step, hquit, hblank, htake, ← reply_eq_answerLine]
  rfl

theorem follows_nil : Follows [] [] empty := ⟨rfl, rfl, rfl, rfl⟩

/-- A request to quit ends the conversation. -/
theorem follows_quit (h : isQuit line = true) (lines : List String) :
    Follows (line :: lines) [] ⟨[none], true, lines.length⟩ := by
  have hconsumed := consumed_of_quit lines h
  constructor
  · simp [h]
  · simp [hconsumed]
  · simp [hconsumed, isAsked, h]
  · rfl

theorem Follows.skip (h : Follows lines turns conversation) (hblank : isBlankLine line = true) :
    Follows (line :: lines) turns (cons none conversation) := by
  have hquit := isQuit_of_isBlankLine hblank
  have hconsumed := consumed_of_not_quit lines hquit
  constructor
  · simp [cons, hquit, h.quit]
  · simp [cons, hconsumed, h.unread]
  · simp [cons, hconsumed, isAsked, hblank, h.replied]
  · exact h.replies

theorem Follows.reply (h : Follows lines turns conversation) (hquit : isQuit line = false)
    (hblank : isBlankLine line = false) (turn : Session.Turn) :
    Follows (line :: lines) (turn :: turns)
      (cons (some (answerLine turn)) conversation) := by
  have hconsumed := consumed_of_not_quit lines hquit
  constructor
  · simp [cons, hquit, h.quit]
  · simp [cons, hconsumed, h.unread]
  · simp [cons, hconsumed, isAsked, hquit, hblank, h.replied]
  · exact congrArg (answerLine turn :: ·) h.replies

theorem Follows.prints (h : Follows lines turns conversation) : conversation.Prints turns := by
  constructor
  · rw [printed, h.replies, List.flatMap_map]
    rfl
  · unfold transcript
    refine congrArg₂ (· ++ ·) (congrArg₂ (· ++ ·) rfl ?_) ?_
    · apply List.flatMap_congr
      intro reply? _
      cases reply? with
      | none => rfl
      | some text => exact List.append_assoc _ _ _
    · cases conversation.quit <;> rfl

/-- A blank line changes nothing but what was read. -/
theorem continueWith_blank (h : isBlankLine line = true) (session : Session) :
    continueWith store session (line :: lines) =
      (continueWith store session lines).map (cons none) := by
  rw [continueWith, step_of_blank h]

/-- A conversation follows one session over the lines that ask something. -/
theorem exists_continueWith
    (hanswers : ∀ problem, ∃ shown, Shown.ofProblem store (.text problem) = .ok shown)
    (lines : List String) :
    ∀ session : Session, session.CanContinue →
      ∃ conversation turns, continueWith store session lines = .ok conversation ∧
        session.takeAll store (asked lines) = .ok turns ∧ conversation.Follows lines turns := by
  induction lines with
  | nil =>
      intro session _
      exact ⟨empty, [], rfl, rfl, follows_nil⟩
  | cons line lines ih =>
      intro session hsession
      cases hquit : isQuit line with
      | true =>
          refine ⟨_, [], ?_, ?_, follows_quit hquit lines⟩
          · rw [continueWith, step_of_quit hquit]
          · rw [asked_of_quit lines hquit]
            rfl
      | false =>
          cases hblank : isBlankLine line with
          | true =>
              obtain ⟨conversation, turns, hrest, hturns, hfollows⟩ := ih session hsession
              refine ⟨cons none conversation, turns, ?_, ?_, hfollows.skip hblank⟩
              · rw [continueWith_blank hblank, hrest]
                rfl
              · rw [← hturns]
                exact congrArg (session.takeAll store) (asked_blank hblank [] lines)
          | false =>
              obtain ⟨turn, htake, hturn⟩ := Session.exists_take hanswers hsession line
              obtain ⟨conversation, turns, hrest, hturns, hfollows⟩ := ih turn.session hturn
              refine ⟨_, turn :: turns, ?_, ?_, hfollows.reply hquit hblank turn⟩
              · rw [continueWith, step_of_take hquit hblank htake]
                simp only
                rw [hrest]
                rfl
              · rw [asked_of_asks lines hquit hblank, Session.takeAll, htake]
                show (turn.session.takeAll store (asked lines) >>= _) = _
                rw [hturns]
                rfl

end Steps

end Conversation

/-! ## The command -/

namespace Settings.LogLevel

/-- The setting names another part of the logging system, in any case. -/
def NamesOther (setting : Json) : Prop :=
  ∃ name, setting.plain = Text.Points.ofString name ∧
    Text.inCapitals name ∈ ["BASIC_FORMAT", "_STYLES"]

/-- Every setting stands for a level, except these names. -/
theorem ofSetting_eq_ok_iff (setting : Json) :
    (∃ level, ofSetting setting = .ok level) ↔ ¬ NamesOther setting := by
  unfold ofSetting NamesOther
  cases hname : setting.plain.toString? with
  | none =>
      refine iff_of_true ⟨info, rfl⟩ ?_
      rintro ⟨name, hplain, -⟩
      rw [hplain, Text.Points.toString?_ofString] at hname
      cases hname
  | some name =>
      have hplain := Text.Points.toString?_eq_some_iff.1 hname
      have hmem : (∃ other, setting.plain = Text.Points.ofString other ∧
          Text.inCapitals other ∈ ["BASIC_FORMAT", "_STYLES"]) ↔
            Text.inCapitals name ∈ ["BASIC_FORMAT", "_STYLES"] := by
        rw [hplain]
        constructor
        · rintro ⟨other, hother, hmem⟩
          rwa [Text.Points.ofString_inj.1 hother]
        · intro hmem
          exact ⟨name, rfl, hmem⟩
      rw [hmem]
      by_cases hformat : Text.inCapitals name = "BASIC_FORMAT"
      · simp [hformat]
      · by_cases hstyles : Text.inCapitals name = "_STYLES"
        · simp [hstyles]
        · simp [hformat, hstyles]

end Settings.LogLevel

namespace CommandLine

variable {store : Settings.Store} {settings : Settings}

theorem run_of_hold (hload : store.load = .ok settings) {input : String}
    {conversation : Conversation}
    (h : Conversation.hold store (Text.lines input) = .ok conversation) :
    run store [] input =
      (Settings.LogLevel.ofSetting (settings.get Settings.levelName)).map
        fun _ => ⟨0, conversation.transcript⟩ := by
  rw [run, prepare, hload]
  show ((Settings.LogLevel.ofSetting (settings.get Settings.levelName) >>= _) >>= _) = _
  cases Settings.LogLevel.ofSetting (settings.get Settings.levelName) with
  | error refusal => rfl
  | ok level =>
      show (Conversation.hold store (Text.lines input) >>= _) = _
      rw [h]
      rfl

/-- Under settings with which every problem is answered: a conversation over any lines ends, and
replies to the lines that ask something what one session answers to them. A blank line changes
neither the session nor what is printed. The command without arguments holds the same conversation
over the lines of its input, exactly if the log level does not name another part of the logging
system. -/
theorem conversation_is_session
    (hanswers : ∀ problem, ∃ shown, Shown.ofProblem store (.text problem) = .ok shown)
    (lines : List String) :
    ∃ conversation turns, Conversation.hold store lines = .ok conversation ∧
      Session.takeAll store .fresh (Conversation.asked lines) = .ok turns ∧
      conversation.Follows lines turns ∧ conversation.Prints turns ∧
      (∀ blank, Conversation.isBlankLine blank = true →
        (∀ session rest, Conversation.continueWith store session (blank :: rest) =
          (Conversation.continueWith store session rest).map (Conversation.cons none)) ∧
        ∀ front back, lines = front ++ blank :: back →
          ∃ other, Conversation.hold store (front ++ back) = .ok other ∧
            other.printed = conversation.printed) ∧
      ((∀ line ∈ lines, '\n' ∉ line.toList) → ∃ input, Text.lines input = lines) ∧
      ∀ input, Text.lines input = lines →
        (run store [] input = .ok ⟨0, conversation.transcript⟩ ↔
          ∃ setting, store.lookup (.text "log_level") = .ok (.value setting) ∧
            ¬ Settings.LogLevel.NamesOther setting) := by
  have hruns := fun lines =>
    Conversation.exists_continueWith hanswers lines .fresh Session.canContinue_fresh
  obtain ⟨shown, hshown⟩ := hanswers ""
  obtain ⟨settings, hload⟩ := Shown.exists_load hshown
  obtain ⟨conversation, turns, hhold, hturns, hfollows⟩ := hruns lines
  refine ⟨conversation, turns, hhold, hturns, hfollows, hfollows.prints, ?_,
    Text.exists_lines_eq, ?_⟩
  · intro blank hblank
    refine ⟨fun session rest => Conversation.continueWith_blank hblank session, ?_⟩
    rintro front back rfl
    obtain ⟨other, others, hother, hothers, hfollowsOther⟩ := hruns (front ++ back)
    refine ⟨other, hother, ?_⟩
    rw [Conversation.asked_blank hblank, hothers] at hturns
    rw [hfollowsOther.prints.printed, hfollows.prints.printed, Except.ok.inj hturns]
  · rintro input rfl
    have hlookup : store.lookup (.text "log_level") =
        .ok (.value (settings.get Settings.levelName)) :=
      Settings.Store.lookup_text hload (by decide)
    rw [run_of_hold hload hhold, hlookup]
    simp only [Except.ok.injEq, Settings.Found.value.injEq, exists_eq_left',
      ← Settings.LogLevel.ofSetting_eq_ok_iff]
    cases Settings.LogLevel.ofSetting (settings.get Settings.levelName) with
    | error refusal => simp [Except.map]
    | ok level => simp [Except.map]

theorem ofProblem_empty (problem : String) :
    ∃ shown, Shown.ofProblem .empty (.text problem) = .ok shown :=
  ⟨_, @Shown.ofProblem_text .empty Settings.defaults 2 rfl rfl problem⟩

/-- Without a settings file: a result is continued over a blank line, an error is shown without its
problem, and nothing is read once a line asked to quit. -/
theorem sum_is_continued :
    let lines := ["1+1", "", "*3", "2/0", " Quit", "7"]
    let input := "1+1\n\n*3\n2/0\n Quit\n7"
    let replies : List (Option Text.Points) := [some (.ofString "1+1 = 2"), none,
      some (.ofString "2*3 = 6"), some (.ofString "cannot divide by zero!"), none]
    let output :=
      "Enter a problem ('q' to quit):\n> 1+1 = 2\n> > 2*3 = 6\n> cannot divide by zero!\n> "
    (∀ problem, ∃ shown, Shown.ofProblem .empty (.text problem) = .ok shown) ∧
      (∀ line ∈ lines, '\n' ∉ line.toList) ∧ Text.lines input = lines ∧
      ∃ conversation turns,
        Conversation.hold .empty lines = .ok conversation ∧
        Session.takeAll .empty .fresh ["1+1", "*3", "2/0"] = .ok turns ∧
        conversation.Follows lines turns ∧ conversation.Prints turns ∧
        conversation.replies = replies ∧
        conversation.printed =
          "Enter a problem ('q' to quit):\n1+1 = 2\n2*3 = 6\ncannot divide by zero!\n" ∧
        conversation.quit = true ∧ conversation.unread = 1 ∧
        run .empty [] input = .ok ⟨0, output⟩ := by
  intro lines input replies output
  have hlines : Text.lines input = lines := by decide +kernel
  have hheld : Conversation.hold .empty lines = .ok ⟨replies, true, 1⟩ := by decide +kernel
  have houtput : Conversation.transcript ⟨replies, true, 1⟩ = output := by decide +kernel
  obtain ⟨conversation, turns, hhold, hturns, hfollows, hprints, -, -, hrun⟩ :=
    conversation_is_session ofProblem_empty lines
  obtain rfl := Except.ok.inj (hheld.symm.trans hhold)
  refine ⟨ofProblem_empty, by decide +kernel, hlines, _, turns, hhold, hturns, hfollows, hprints,
    rfl, by decide +kernel, rfl, rfl, ?_⟩
  rw [← houtput]
  apply (hrun input hlines).2
  refine ⟨_, rfl, ?_⟩
  rw [← Settings.LogLevel.ofSetting_eq_ok_iff]
  exact ⟨20, rfl⟩

/-- A log level that is the name of a message format: every problem is answered, and a conversation
too, but the command without arguments is refused. -/
theorem basic_format_is_refused :
    let store := Settings.Store.empty.save
      (.object [(.ofString Settings.levelName, .text (.ofString "BASIC_FORMAT"))])
    (∀ problem, ∃ shown, Shown.ofProblem store (.text problem) = .ok shown) ∧
      (∃ conversation, Conversation.hold store ["1+1"] = .ok conversation) ∧
      Text.lines "1+1\n" = ["1+1"] ∧ run store [] "1+1\n" = .error .levelNotKnown := by
  intro store
  let settings : Settings := Settings.defaults.put (.text Settings.levelName)
    (.text (.ofString "BASIC_FORMAT"))
  have hload : store.load = .ok settings :=
    Settings.Store.load_save rfl
      (Settings.Store.isReadable_level (Text.Points.isJoined_ofString "BASIC_FORMAT"))
  have hplaces : settings.get Settings.placesName = .integer 2 := rfl
  have hanswers : ∀ problem, ∃ shown, Shown.ofProblem store (.text problem) = .ok shown :=
    fun problem => ⟨_, Shown.ofProblem_text hload hplaces problem⟩
  have hlines : Text.lines "1+1\n" = ["1+1"] := by decide
  obtain ⟨conversation, turns, hhold, -⟩ :=
    Conversation.exists_continueWith hanswers ["1+1"] .fresh Session.canContinue_fresh
  refine ⟨hanswers, ⟨conversation, hhold⟩, hlines, ?_⟩
  rw [run_of_hold hload (hlines ▸ hhold)]
  rfl

end CommandLine

end Reckoner
