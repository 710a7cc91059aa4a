import Reckoner.Proofs.Grammar.Phrase

/-!
# Where a list of tokens becomes hopeless

The check of sentences reads tokens for as long as some sentence begins with them. Whatever it has
read can be completed: by a number if an operand is due, and by the brackets that close the open
groups. So the token that it refuses is the first one with which no sentence goes on, and what
stands behind that token has no part in the fault.

## Main results

* `accepts_completion`: every state of the check has a completion.
* `beginsSentence_iff`: the tokens with which a sentence begins are those that the check reads.
* `check_at_first_hopeless_token`: what is accepted, and which fault anything else has.
-/

namespace Reckoner

namespace Token

/-- A list of the grammar `E ::= T | E op T`, `T ::= number | '(' E ')'`. -/
def IsSentence (tokens : List Token) : Prop :=
  ∃ expression : Phrase Binary64 Operator .expression, expression.tokens = tokens

/-- Some sentence begins with the tokens. -/
def BeginsSentence (tokens : List Token) : Prop := ∃ rest, IsSentence (tokens ++ rest)

/-- The shortest beginning of the tokens with which no sentence begins. -/
structure IsShortestHopeless (front tokens : List Token) : Prop where
  begins : front <+: tokens
  hopeless : ¬ BeginsSentence front
  shortest : ∀ other, other <+: tokens → ¬ BeginsSentence other → front.length ≤ other.length

theorem BeginsSentence.of_append {front back : List Token} (h : BeginsSentence (front ++ back)) :
    BeginsSentence front := by
  obtain ⟨rest, hrest⟩ := h
  rw [List.append_assoc] at hrest
  exact ⟨back ++ rest, hrest⟩

end Token

namespace Sentence

open Token

/-! ## One token after the other -/

theorem accepts_append {sentence : Sentence} {front back : List Token} :
    sentence.Accepts (front ++ back) ↔
      ∃ next, front.foldlM read sentence = .ok next ∧ next.Accepts back := by
  rw [Accepts, List.foldlM_append]
  cases hfront : front.foldlM read sentence with
  | error fault => simp [bind, Except.bind]
  | ok next => simp [Accepts, bind, Except.bind]

/-- The last token that was read is remembered. -/
theorem previous_of_read {sentence next : Sentence} {token : Token}
    (h : sentence.read token = .ok next) : next.previous = some token := by
  cases token with
  | number value =>
      obtain ⟨-, rfl⟩ := read_number_eq_ok.1 h
      rfl
  | symbol text =>
      rcases (symbol text).bracket_cases with hopening | hclosing | hother
      · rw [hopening] at h ⊢
        obtain ⟨-, rfl⟩ := read_opening_eq_ok.1 h
        rfl
      · rw [hclosing] at h ⊢
        obtain ⟨-, outer, -, rfl⟩ := read_closing_eq_ok.1 h
        rfl
      · obtain ⟨-, rfl⟩ := (read_symbol_eq_ok hother).1 h
        rfl

theorem previous_of_foldlM {tokens : List Token} :
    ∀ {sentence next : Sentence}, tokens.foldlM read sentence = .ok next →
      next.previous = tokens.getLast?.or sentence.previous := by
  induction tokens with
  | nil =>
      intro sentence next h
      cases h
      rfl
  | cons token tokens ih =>
      intro sentence next h
      rw [List.foldlM_cons] at h
      cases hread : sentence.read token with
      | error fault =>
          rw [hread] at h
          cases h
      | ok middle =>
          rw [hread] at h
          rw [ih h, previous_of_read hread]
          cases hlast : tokens.getLast? <;> simp [List.getLast?_cons, hlast]

/-- At the end either the last token is an operator, or a group is open. -/
theorem fault_of_finish {sentence : Sentence} {fault : Fault}
    (h : sentence.finish = .error fault) :
    fault.kind = .malformed ∧
      fault.code = if sentence.previous.any isOperator then "3029" else "3009" := by
  have hdepth : (if sentence.depth = 0 then Except.ok () else .error .missingClosing) =
      .error fault → fault = .missingClosing := by
    intro hopen
    split at hopen
    · cases hopen
    · exact (Except.error.inj hopen).symm
  obtain ⟨depth, previous⟩ := sentence
  match previous with
  | none | some (.number value) =>
      obtain rfl := hdepth h
      exact ⟨rfl, rfl⟩
  | some (.symbol text) =>
      simp only [finish] at h
      split at h
      · next hoperator =>
        obtain rfl := Except.error.inj h
        exact ⟨rfl, (if_pos hoperator).symm⟩
      · next hoperator =>
        obtain rfl := hdepth h
        exact ⟨rfl, (if_neg hoperator).symm⟩

/-- If reading tokens fails, it fails at one of them. -/
theorem exists_refused {tokens : List Token} {fault : Fault} :
    ∀ {sentence : Sentence}, tokens.foldlM read sentence = .error fault →
      ∃ front token back next, tokens = front ++ token :: back ∧
        front.foldlM read sentence = .ok next ∧ next.read token = .error fault := by
  induction tokens with
  | nil =>
      intro sentence h
      cases h
  | cons token tokens ih =>
      intro sentence h
      rw [List.foldlM_cons] at h
      cases hread : sentence.read token with
      | error other =>
          rw [hread] at h
          cases h
          exact ⟨[], token, tokens, sentence, rfl, rfl, hread⟩
      | ok middle =>
          rw [hread] at h
          obtain ⟨front, refused, back, next, rfl, hfront, hrefused⟩ := ih h
          refine ⟨token :: front, refused, back, next, rfl, ?_, hrefused⟩
          rw [List.foldlM_cons, hread]
          exact hfront

/-- Where a token is refused, the fault is that of its list, whatever follows it. -/
theorem check_of_refused {front : List Token} {token : Token} {next : Sentence} {fault : Fault}
    (hfront : front.foldlM read start = .ok next) (htoken : next.read token = .error fault)
    (rest : List Token) : check (front ++ token :: rest) = .error fault := by
  have hempty : (front ++ token :: rest).isEmpty = false := by simp
  rw [check, hempty, List.foldlM_append, hfront]
  show (List.foldlM read next (token :: rest) >>= finish) = _
  rw [List.foldlM_cons, htoken]
  rfl

/-! ## Completing what has been read -/

/-- Tokens that complete what has been read. -/
def completion (sentence : Sentence) : List Token :=
  (if operandDue sentence.previous then [.number (.zero false)] else []) ++
    List.replicate sentence.depth .closing

theorem accepts_closings (depth : Nat) :
    ∀ {previous : Option Token}, operandDue previous = false →
      Accepts ⟨depth, previous⟩ (List.replicate depth .closing) := by
  induction depth with
  | zero =>
      intro previous hdue
      exact (finish_eq_ok hdue).2 rfl
  | succ depth ih =>
      intro previous hdue
      rw [List.replicate_succ, accepts_cons]
      exact ⟨_, read_closing_eq_ok.2 ⟨hdue, depth, rfl, rfl⟩, ih rfl⟩

/-- Whatever has been read can be completed. -/
theorem accepts_completion (sentence : Sentence) : sentence.Accepts sentence.completion := by
  obtain ⟨depth, previous⟩ := sentence
  cases hdue : operandDue previous with
  | true =>
      rw [completion, if_pos hdue, List.singleton_append, accepts_cons]
      exact ⟨_, read_number_eq_ok.2 ⟨hdue, rfl⟩, accepts_closings depth rfl⟩
  | false =>
      rw [completion, if_neg (by simp [hdue]), List.nil_append]
      exact accepts_closings depth hdue

theorem isProper_of_mem_completion {sentence : Sentence} :
    ∀ token ∈ sentence.completion, Phrase.IsProper token := by
  intro token htoken
  rcases List.mem_append.1 htoken with hnumber | hclosing
  · split at hnumber
    · obtain rfl := List.mem_singleton.1 hnumber
      exact Or.inl rfl
    · cases hnumber
  · obtain rfl := List.eq_of_mem_replicate hclosing
    exact Or.inr (Or.inr (by decide))

section Check

variable {tokens : List Token} (hproper : ∀ token ∈ tokens, Phrase.IsProper token)

include hproper

/-- The tokens with which a sentence begins are those that are read without a fault. -/
theorem beginsSentence_iff :
    BeginsSentence tokens ↔ ∃ next, tokens.foldlM read start = .ok next := by
  constructor
  · rintro ⟨rest, expression, hexpression⟩
    have haccepts := (check_eq_ok.1 expression.check_tokens).2
    rw [hexpression, accepts_append] at haccepts
    obtain ⟨next, hnext, -⟩ := haccepts
    exact ⟨next, hnext⟩
  · rintro ⟨next, hnext⟩
    have hne : tokens ++ next.completion ≠ [] := by
      cases tokens with
      | nil =>
          cases hnext
          exact List.cons_ne_nil _ _
      | cons token tokens => exact List.cons_ne_nil _ _
    refine ⟨next.completion, (Phrase.check_eq_ok_iff ?_).1 ?_⟩
    · exact List.forall_mem_append.2 ⟨hproper, isProper_of_mem_completion⟩
    · rw [check_eq_ok, accepts_append]
      exact ⟨hne, next, hnext, next.accepts_completion⟩

/-- Tokens that can be completed, but are not complete, end in an operator or leave a group open. -/
theorem check_of_beginsSentence (hne : tokens ≠ []) (hcomplete : ¬ IsSentence tokens)
    (hbegins : BeginsSentence tokens) :
    ∃ fault, check tokens = .error fault ∧ fault.kind = .malformed ∧
      fault.code = if tokens.getLast?.any isOperator then "3029" else "3009" := by
  obtain ⟨next, hnext⟩ := (beginsSentence_iff hproper).1 hbegins
  have hcheck : check tokens = next.finish := by
    rw [check, List.isEmpty_eq_false_iff.2 hne, hnext]
    rfl
  have hlast : next.previous = tokens.getLast? := by
    rw [previous_of_foldlM hnext]
    exact Option.or_none
  rw [hcheck, ← hlast]
  cases hfinish : next.finish with
  | ok =>
      rw [hfinish] at hcheck
      exact absurd ((Phrase.check_eq_ok_iff hproper).1 hcheck) hcomplete
  | error fault => exact ⟨fault, rfl, fault_of_finish hfinish⟩

/-- Tokens with which no sentence begins are refused at the last token of their shortest beginning
with which no sentence begins. -/
theorem exists_shortestHopeless (hhopeless : ¬ BeginsSentence tokens) :
    ∃ front, IsShortestHopeless front tokens ∧
      ∃ fault, ∀ rest, check (front ++ rest) = .error fault := by
  cases hread : tokens.foldlM read start with
  | ok next => exact absurd ((beginsSentence_iff hproper).2 ⟨next, hread⟩) hhopeless
  | error fault =>
      obtain ⟨front, token, back, next, rfl, hfront, htoken⟩ := exists_refused hread
      have hfault : ∀ rest, check ((front ++ [token]) ++ rest) = .error fault := by
        intro rest
        rw [List.append_assoc]
        exact check_of_refused hfront htoken rest
      have hbegins : BeginsSentence front :=
        (beginsSentence_iff fun other hother => hproper other (List.mem_append_left _ hother)).2
          ⟨next, hfront⟩
      refine ⟨front ++ [token], ⟨⟨back, by simp⟩, ?_, ?_⟩, fault, hfault⟩
      · rintro ⟨rest, expression, hexpression⟩
        have hcheck := expression.check_tokens
        rw [hexpression, hfault] at hcheck
        cases hcheck
      · intro other hother hnone
        refine Nat.le_of_not_lt fun hshorter => ?_
        have hle : other.length ≤ front.length := by
          rw [List.length_append, List.length_singleton] at hshorter
          omega
        obtain ⟨rest, rfl⟩ :=
          List.prefix_of_prefix_length_le hother (List.prefix_append front _) hle
        exact hnone hbegins.of_append

end Check

/-- Among the lists of numbers, operators and brackets exactly the sentences are accepted. A list
that is not one, but begins one, lacks a number behind its last operator or the end of a group. In
any other list there is a first token with which no sentence goes on, and every list that is the
same up to this token has the same fault. -/
theorem check_at_first_hopeless_token {tokens : List Token}
    (hproper : ∀ token ∈ tokens, Phrase.IsProper token) :
    (check tokens = .ok () ↔ IsSentence tokens) ∧
      (tokens ≠ [] → ¬ IsSentence tokens → BeginsSentence tokens →
        ∃ fault, check tokens = .error fault ∧ fault.kind = .malformed ∧
          fault.code = if tokens.getLast?.any isOperator then "3029" else "3009") ∧
      (¬ BeginsSentence tokens →
        ∃ front, IsShortestHopeless front tokens ∧
          ∃ fault, ∀ rest, check (front ++ rest) = .error fault) :=
  ⟨Phrase.check_eq_ok_iff hproper, check_of_beginsSentence hproper,
    exists_shortestHopeless hproper⟩

/-- In `1+)1` the closing bracket is the first token with which no sentence goes on. -/
theorem closing_behind_operator_is_hopeless :
    (∀ token ∈ [number (.ofNat 1), ofOperator .sum, closing, number (.ofNat 1)],
        Phrase.IsProper token) ∧
      ¬ BeginsSentence [number (.ofNat 1), ofOperator .sum, closing, number (.ofNat 1)] ∧
      ∃ front,
        IsShortestHopeless front
          [number (.ofNat 1), ofOperator .sum, closing, number (.ofNat 1)] ∧
        ∃ fault, ∀ rest, check (front ++ rest) = .error fault := by
  have hproper : ∀ token ∈ [number (.ofNat 1), ofOperator .sum, closing, number (.ofNat 1)],
      Phrase.IsProper token := by
    simp only [List.forall_mem_cons]
    exact ⟨Or.inl rfl, Or.inr (Or.inl rfl), Or.inr (Or.inr rfl), Or.inl rfl, by simp⟩
  have hhopeless :
      ¬ BeginsSentence [number (.ofNat 1), ofOperator .sum, closing, number (.ofNat 1)] := by
    rw [beginsSentence_iff hproper]
    rintro ⟨next, hnext⟩
    cases hnext
  exact ⟨hproper, hhopeless, (check_at_first_hopeless_token hproper).2.2 hhopeless⟩

end Sentence

end Reckoner
