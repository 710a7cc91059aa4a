import Reckoner.Session
import Reckoner.Text.Lines

/-!
# Conversations

The interactive prompt reads lines until one of them asks to quit or there are no more. Blank lines
are passed over; every other line is answered by one session.

What is printed is a row of code points, and it is taken to be printed whatever they are. The
message for a division by zero may hold halves of surrogate pairs, which not every stream takes.

## Main results

* `length_replies_add_unread`: every line is either read or left unread.
-/

namespace Reckoner

/-- What comes of a conversation. -/
structure Conversation where
  /-- The reply to each line that was read; a blank line and a request to quit have none. -/
  replies : List (Option Text.Points)
  /-- Whether it ended by a request to quit, and not for want of lines. -/
  quit : Bool
  /-- How many lines were left unread. -/
  unread : Nat
deriving DecidableEq, Repr

namespace Conversation

/-- The line that is printed first. -/
def heading : String := "Enter a problem ('q' to quit):"

/-- What is printed before a line is read. -/
def prompt : String := "> "

/-- Whether a line asks to quit. -/
def isQuit (line : String) : Bool :=
  ["q", "quit", "exit"].contains (String.ofList ((Text.trim line).toList.map Char.toLower))

/-- Whether a line holds nothing. -/
def isBlankLine (line : String) : Bool := (Text.trim line).isEmpty

/-- The reply to a line that was answered. -/
def reply (turn : Session.Turn) : Text.Points :=
  if turn.shown.isOk then (turn.problem ++ " = " : String) ++ turn.shown.display.plain
  else turn.shown.display.plain

/-- What one line does to a conversation. -/
inductive Step where
  | quit
  | skip
  | reply (text : Text.Points) (session : Session)

/-- Takes one line. -/
def step (store : Settings.Store) (session : Session) (line : String) : Except Refusal Step :=
  if isQuit line then .ok .quit
  else if isBlankLine line then .ok .skip
  else (session.take store line).map fun turn => .reply (reply turn) turn.session

/-- The conversation without any line. -/
def empty : Conversation := ⟨[], false, 0⟩

/-- The conversation with a line read before it. -/
def cons (reply? : Option Text.Points) (rest : Conversation) : Conversation :=
  { rest with replies := reply? :: rest.replies }

/-- The conversation over these lines, from a session on. -/
def continueWith (store : Settings.Store) (session : Session) :
    List String → Except Refusal Conversation
  | [] => .ok empty
  | line :: lines =>
      match step store session line with
      | .error refusal => .error refusal
      | .ok .quit => .ok ⟨[none], true, lines.length⟩
      | .ok .skip => (continueWith store session lines).map (cons none)
      | .ok (.reply text session) => (continueWith store session lines).map (cons (some text))

/-- The whole conversation over these lines. -/
def hold (store : Settings.Store) (lines : List String) : Except Refusal Conversation :=
  continueWith store .fresh lines

/-- Everything that is printed but the prompts. -/
def printed (conversation : Conversation) : Text.Points :=
  (heading ++ "\n" : String)
    ++ (conversation.replies.filterMap id).flatMap (· ++ Text.Points.ofString "\n")

/-- The printed lines, without the prompts; a reply may be longer than a line. -/
def lines (conversation : Conversation) : List Text.Points := conversation.printed.lines

/-- Everything that is printed: each line that is read is prompted for, and so is the one that does
not come. -/
def transcript (conversation : Conversation) : Text.Points :=
  let replyLine : Option Text.Points → Text.Points
    | some text => prompt ++ text ++ "\n"
    | none => prompt
  (heading ++ "\n" : String) ++ conversation.replies.flatMap replyLine
    ++ (if conversation.quit then "" else prompt)

/-- Every line is either read or left unread. -/
theorem length_replies_add_unread (store : Settings.Store) (session : Session)
    (lines : List String) (conversation : Conversation)
    (h : continueWith store session lines = .ok conversation) :
    conversation.replies.length + conversation.unread = lines.length := by
  fun_induction continueWith store session lines generalizing conversation with
  | case1 => cases h; rfl
  | case2 => cases h
  | case3 => cases h; simp only [List.length_cons, List.length_nil]; omega
  | case4 session line lines _ ih =>
      cases hrest : continueWith store session lines with
      | error => simp [hrest, Except.map] at h
      | ok rest =>
          simp only [hrest, Except.map, Except.ok.injEq] at h
          subst h
          have := ih rest hrest
          simp only [cons, List.length_cons]
          omega
  | case5 session line lines _ next _ ih =>
      cases hrest : continueWith store next lines with
      | error => simp [hrest, Except.map] at h
      | ok rest =>
          simp only [hrest, Except.map, Except.ok.injEq] at h
          subst h
          have := ih rest hrest
          simp only [cons, List.length_cons]
          omega

end Conversation

end Reckoner
