import Reckoner.Token.Sentence

/-!
# Phrases

The grammar of infix expressions without regard to precedence,

* `expression ::= operand | expression join operand`
* `operand ::= leaf | '(' expression ')'`

as a type of derivations, for any kind of leaves and joins. With numbers for leaves and operators
for joins the derivations are those of token lists; a text has spelled numbers and joins that may
be left out.

## Main results

* `accepts_tokens`: the check of sentences reads the tokens of a phrase as one operand.
* `exists_phrase_of_accepts`: what the check accepts from the start are the tokens of a phrase. The
  induction is on the tokens that are left; what was read before them is a stack of groups, each
  with the phrase that stands before its next operand.
* `check_eq_ok_iff`: the sentences of numbers, operators and brackets are the tokens of phrases.
-/

namespace Reckoner

/-- The parts of speech of an infix expression. -/
inductive Part where
  | operand
  | expression

/-- A derivation in the grammar of infix expressions. -/
inductive Phrase (Leaf Join : Type) : Part → Type where
  | leaf (value : Leaf) : Phrase Leaf Join .operand
  | group (inner : Phrase Leaf Join .expression) : Phrase Leaf Join .operand
  | single (operand : Phrase Leaf Join .operand) : Phrase Leaf Join .expression
  | join (left : Phrase Leaf Join .expression) (how : Join) (right : Phrase Leaf Join .operand) :
      Phrase Leaf Join .expression

namespace Phrase

section Yield

variable {Leaf Join Leaf' Join' α : Type}

/-- What a phrase consists of, when leaves, joins and brackets stand for these. -/
def yield (ofLeaf : Leaf → List α) (ofJoin : Join → List α) (opening closing : α) :
    {part : Part} → Phrase Leaf Join part → List α
  | _, leaf value => ofLeaf value
  | _, group inner => opening :: (inner.yield ofLeaf ofJoin opening closing ++ [closing])
  | _, single operand => operand.yield ofLeaf ofJoin opening closing
  | _, join left how right =>
      left.yield ofLeaf ofJoin opening closing ++
        (ofJoin how ++ right.yield ofLeaf ofJoin opening closing)

/-- The phrase with its leaves and joins replaced. -/
def map (f : Leaf → Leaf') (g : Join → Join') :
    {part : Part} → Phrase Leaf Join part → Phrase Leaf' Join' part
  | _, leaf value => leaf (f value)
  | _, group inner => group (inner.map f g)
  | _, single operand => single (operand.map f g)
  | _, join left how right => join (left.map f g) (g how) (right.map f g)

end Yield

/-! ## The tokens of a phrase -/

/-- The tokens of a phrase of numbers and operators. -/
def tokens {part : Part} (phrase : Phrase Binary64 Operator part) : List Token :=
  phrase.yield (fun value => [.number value]) (fun op => [.ofOperator op]) .opening .closing

/-- The last token of a phrase. -/
def lastToken : {part : Part} → Phrase Binary64 Operator part → Token
  | _, leaf value => .number value
  | _, group _ => .closing
  | _, single operand => operand.lastToken
  | _, join _ _ right => right.lastToken

section Tokens

variable (value : Binary64) (inner left : Phrase Binary64 Operator .expression)
  (operand right : Phrase Binary64 Operator .operand) (op : Operator)

@[simp] theorem tokens_leaf : (leaf value : Phrase Binary64 Operator _).tokens = [.number value] :=
  rfl

@[simp] theorem tokens_group :
    (group inner).tokens = .opening :: (inner.tokens ++ [.closing]) := rfl

@[simp] theorem tokens_single : (single operand).tokens = operand.tokens := rfl

@[simp] theorem tokens_join :
    (join left op right).tokens = left.tokens ++ .ofOperator op :: right.tokens := rfl

end Tokens

theorem operandDue_lastToken {part : Part} (phrase : Phrase Binary64 Operator part) :
    Sentence.operandDue (some phrase.lastToken) = false := by
  induction phrase with
  | leaf value => rfl
  | group inner _ => rfl
  | single operand ih => exact ih
  | join left op right _ ih => exact ih

theorem tokens_ne_nil {part : Part} (phrase : Phrase Binary64 Operator part) :
    phrase.tokens ≠ [] := by
  induction phrase with
  | leaf value => simp
  | group inner _ => simp
  | single operand ih => exact ih
  | join left op right _ _ => simp

/-- The check reads a phrase where an operand is due, and after it none is due. -/
theorem accepts_tokens {part : Part} (phrase : Phrase Binary64 Operator part) :
    ∀ (depth : Nat) (previous : Option Token) (rest : List Token),
      Sentence.operandDue previous = true →
        (Sentence.Accepts ⟨depth, previous⟩ (phrase.tokens ++ rest) ↔
          Sentence.Accepts ⟨depth, some phrase.lastToken⟩ rest) := by
  induction phrase with
  | leaf value =>
      intro depth previous rest hdue
      show Sentence.Accepts ⟨depth, previous⟩ (.number value :: rest) ↔ _
      simp only [Sentence.accepts_cons, Sentence.read_number_eq_ok, hdue, true_and,
        exists_eq_left]
      exact Iff.rfl
  | group inner ih =>
      intro depth previous rest hdue
      have hinner := operandDue_lastToken inner
      rw [tokens_group, List.cons_append, List.append_assoc]
      simp only [Sentence.accepts_cons, Sentence.read_opening_eq_ok, hdue, true_and,
        exists_eq_left, ih (depth + 1) (some .opening) _ rfl]
      simp [Sentence.accepts_cons, Sentence.read_closing_eq_ok, hinner, lastToken]
  | single operand ih =>
      intro depth previous rest hdue
      exact ih depth previous rest hdue
  | join left op right ihleft ihright =>
      intro depth previous rest hdue
      have hleft := operandDue_lastToken left
      have hop := Token.isBracket_ofOperator op
      rw [tokens_join, List.append_assoc, ihleft depth previous _ hdue, List.cons_append,
        Sentence.accepts_cons]
      simp only [Token.ofOperator, Sentence.read_symbol_eq_ok hop, hleft, true_and, exists_eq_left]
      exact ihright depth _ rest (Sentence.operandDue_symbol hop)

theorem check_tokens (phrase : Phrase Binary64 Operator .expression) :
    Sentence.check phrase.tokens = .ok () := by
  rw [Sentence.check_eq_ok]
  refine ⟨phrase.tokens_ne_nil, ?_⟩
  have haccepts := phrase.accepts_tokens 0 none [] rfl
  rw [List.append_nil] at haccepts
  refine haccepts.2 ?_
  rw [Sentence.accepts_nil, Sentence.finish_eq_ok phrase.operandDue_lastToken]

/-! ## The phrase of a sentence -/

/-- What stands before an operand in its group: nothing, or a phrase and the operator that joins the
operand to it. -/
abbrev Before := Option (Phrase Binary64 Operator .expression × Operator)

namespace Before

def tokens : Before → List Token
  | none => []
  | some (left, op) => left.tokens ++ [.ofOperator op]

/-- The phrase that an operand completes. -/
def complete (before : Before) (operand : Phrase Binary64 Operator .operand) :
    Phrase Binary64 Operator .expression :=
  match before with
  | none => single operand
  | some (left, op) => join left op operand

theorem tokens_complete (before : Before) (operand : Phrase Binary64 Operator .operand) :
    (before.complete operand).tokens = before.tokens ++ operand.tokens := by
  cases before <;> simp [complete, tokens]

/-- The tokens of some open groups, the innermost group first, each up to its opened operand. -/
def openTokens : List Before → List Token
  | [] => []
  | before :: outer => openTokens outer ++ (before.tokens ++ [.opening])

end Before

open Before

/-- A number, an operator or a bracket. -/
def IsProper (token : Token) : Prop :=
  token.isNumber = true ∨ token.isOperator = true ∨ token.isBracket = true

/-- The symbols that may occur in the tokens of a phrase. -/
theorem isProper_cases {text : String} (h : IsProper (.symbol text)) :
    Token.symbol text = .opening ∨ Token.symbol text = .closing ∨
      ∃ op, Token.symbol text = .ofOperator op := by
  rcases h with h | h | h
  · cases h
  · obtain ⟨op, hop⟩ := Option.isSome_iff_exists.1 h
    exact Or.inr (Or.inr ⟨op, congrArg Token.symbol (Operator.ofText?_eq_some_iff.1 hop)⟩)
  · simp only [Token.isBracket, Bool.or_eq_true, beq_iff_eq] at h
    rcases h with h | h
    · exact Or.inl h
    · exact Or.inr (Or.inl h)

/-- Where an operand is due, a number or an opening bracket is read. -/
theorem read_of_operandDue {depth : Nat} {previous : Option Token} {token : Token}
    {next : Sentence} (hproper : IsProper token) (hdue : Sentence.operandDue previous = true)
    (hread : Sentence.read ⟨depth, previous⟩ token = .ok next) :
    (∃ value, token = .number value ∧ next = ⟨depth, some (.number value)⟩) ∨
      token = .opening ∧ next = ⟨depth + 1, some .opening⟩ := by
  cases token with
  | number value => exact Or.inl ⟨value, rfl, (Sentence.read_number_eq_ok.1 hread).2⟩
  | symbol text =>
      rcases isProper_cases hproper with htoken | htoken | ⟨op, htoken⟩
      · rw [htoken] at hread ⊢
        exact Or.inr ⟨rfl, (Sentence.read_opening_eq_ok.1 hread).2⟩
      · rw [htoken] at hread
        have hnot := (Sentence.read_closing_eq_ok.1 hread).1
        rw [hdue] at hnot
        cases hnot
      · rw [htoken] at hread
        have hnot := ((Sentence.read_symbol_eq_ok (Token.isBracket_ofOperator op)).1 hread).1
        rw [hdue] at hnot
        cases hnot

/-- Where no operand is due, a closing bracket or an operator is read. -/
theorem read_of_not_operandDue {depth : Nat} {previous : Option Token} {token : Token}
    {next : Sentence} (hproper : IsProper token) (hdue : Sentence.operandDue previous = false)
    (hread : Sentence.read ⟨depth, previous⟩ token = .ok next) :
    (token = .closing ∧ ∃ outer, depth = outer + 1 ∧ next = ⟨outer, some .closing⟩) ∨
      ∃ op, token = .ofOperator op ∧ next = ⟨depth, some (.ofOperator op)⟩ := by
  cases token with
  | number value =>
      have hnot := (Sentence.read_number_eq_ok.1 hread).1
      rw [hdue] at hnot
      cases hnot
  | symbol text =>
      rcases isProper_cases hproper with htoken | htoken | ⟨op, htoken⟩
      · rw [htoken] at hread
        have hnot := (Sentence.read_opening_eq_ok.1 hread).1
        rw [hdue] at hnot
        cases hnot
      · rw [htoken] at hread ⊢
        exact Or.inl ⟨rfl, (Sentence.read_closing_eq_ok.1 hread).2⟩
      · rw [htoken] at hread ⊢
        have hnext := (Sentence.read_symbol_eq_ok (Token.isBracket_ofOperator op)).1 hread
        exact Or.inr ⟨op, rfl, hnext.2⟩

/-- Tokens that complete a state of the check complete the phrases of that state. An operand is due
behind `before`, or `done` is the phrase of the innermost open group so far. -/
theorem exists_phrase_of_accepts {tokens : List Token}
    (hproper : ∀ token ∈ tokens, IsProper token) :
    (∀ (outer : List Before) (before : Before) (previous : Option Token),
        Sentence.operandDue previous = true →
        (tokens = [] → Sentence.finish ⟨outer.length, previous⟩ ≠ .ok ()) →
        Sentence.Accepts ⟨outer.length, previous⟩ tokens →
          ∃ phrase : Phrase Binary64 Operator .expression,
            phrase.tokens = openTokens outer ++ (before.tokens ++ tokens)) ∧
      ∀ (outer : List Before) (done : Phrase Binary64 Operator .expression)
        (previous : Option Token),
        Sentence.operandDue previous = false →
        Sentence.Accepts ⟨outer.length, previous⟩ tokens →
          ∃ phrase : Phrase Binary64 Operator .expression,
            phrase.tokens = openTokens outer ++ (done.tokens ++ tokens) := by
  induction tokens with
  | nil =>
      refine ⟨?_, ?_⟩
      · intro outer before previous _ hend haccepts
        exact absurd haccepts (hend rfl)
      · intro outer done previous hdue haccepts
        rw [Sentence.accepts_nil, Sentence.finish_eq_ok hdue, List.length_eq_zero_iff] at haccepts
        subst haccepts
        exact ⟨done, by simp [openTokens]⟩
  | cons token tokens ih =>
      obtain ⟨ihdue, ihdone⟩ := ih fun other hother => hproper other (List.mem_cons_of_mem _ hother)
      have hfirst := hproper token List.mem_cons_self
      refine ⟨?_, ?_⟩
      · intro outer before previous hdue _ haccepts
        obtain ⟨next, hread, hnext⟩ := Sentence.accepts_cons.1 haccepts
        rcases read_of_operandDue hfirst hdue hread with ⟨value, rfl, rfl⟩ | ⟨rfl, rfl⟩
        · obtain ⟨phrase, hphrase⟩ := ihdone outer (before.complete (leaf value)) _ rfl hnext
          exact ⟨phrase, by rw [hphrase, tokens_complete]; simp⟩
        · have hopen : Sentence.finish ⟨outer.length + 1, some .opening⟩ ≠ .ok () := by
            rw [Sentence.finish_opening]
            simp
          obtain ⟨phrase, hphrase⟩ :=
            ihdue (before :: outer) none (some .opening) rfl (fun _ => hopen) hnext
          exact ⟨phrase, by rw [hphrase]; simp [openTokens, Before.tokens]⟩
      · intro outer done previous hdue haccepts
        obtain ⟨next, hread, hnext⟩ := Sentence.accepts_cons.1 haccepts
        rcases read_of_not_operandDue hfirst hdue hread with
          ⟨rfl, depth, hdepth, rfl⟩ | ⟨op, rfl, rfl⟩
        · cases outer with
          | nil => cases hdepth
          | cons before outer =>
              obtain rfl : outer.length = depth := by simpa using hdepth
              obtain ⟨phrase, hphrase⟩ :=
                ihdone outer (before.complete (group done)) (some .closing) rfl hnext
              exact ⟨phrase, by rw [hphrase, tokens_complete]; simp [openTokens]⟩
        · have hmissing : Sentence.finish ⟨outer.length, some (.ofOperator op)⟩ ≠ .ok () := by
            rw [Sentence.finish_ofOperator]
            simp
          obtain ⟨phrase, hphrase⟩ := ihdue outer (some (done, op)) (some (.ofOperator op))
            (Sentence.operandDue_symbol (Token.isBracket_ofOperator op)) (fun _ => hmissing) hnext
          exact ⟨phrase, by rw [hphrase]; simp [Before.tokens]⟩

/-- Among the lists of numbers, operators and brackets the check accepts the tokens of phrases. -/
theorem check_eq_ok_iff {tokens : List Token} (hproper : ∀ token ∈ tokens, IsProper token) :
    Sentence.check tokens = .ok () ↔
      ∃ phrase : Phrase Binary64 Operator .expression, phrase.tokens = tokens := by
  constructor
  · intro hcheck
    obtain ⟨hne, haccepts⟩ := Sentence.check_eq_ok.1 hcheck
    obtain ⟨phrase, hphrase⟩ := (exists_phrase_of_accepts hproper).1 [] none none rfl
      (fun h => absurd h hne) haccepts
    exact ⟨phrase, hphrase⟩
  · rintro ⟨phrase, rfl⟩
    exact phrase.check_tokens

end Phrase

end Reckoner
